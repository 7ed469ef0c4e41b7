import ManagedModel.Proofs.LiveAccess

/-! # The strict pass over parked values

    A strict pass gives every parked value its turn, in name order, and stops
    at the first that does not resolve.

    * `atTurn` is what a name finds at its turn: the live properties that the
      values parked for smaller names leave behind.
    * `Applies` says what a pass has done once the names up to some point have
      had their turn: these are applied, and all others are as before.
    * A pass takes its steps at the least name that is parked
      (`applyStrictly_of_error`, `applyStrictly_of_ok`); by induction over the
      entries it either applies all of them or stops in front of one
      (`applyStrictly_cases`).
    * `applyStrictly_stops_at_first` puts this together. -/

namespace ManagedModel

namespace ParkedValues

variable {cfg : PropertyConfig} {p p' : ParkedValues} {live live' : LiveProperties}
  {name other : String} {v w : ParkedValue} {value? : Option String} {fault : Fault}
  {rest : List (String × ParkedValue)} {before : String → Bool}

/-! ### Turns -/

/-- What a parked value leaves of the live properties: it is applied if it resolves. -/
def turn (cfg : PropertyConfig) (live : LiveProperties) (entry : String × ParkedValue) :
    LiveProperties :=
  match intendedValue live entry.2.model with
  | .ok value? => cfg.apply entry.1 value? live
  | .error _ => live

/-- The live properties at the turn of a name: what the values parked for smaller names leave. -/
def atTurn (cfg : PropertyConfig) (p : ParkedValues) (live : LiveProperties) (name : String) :
    LiveProperties :=
  (p.values.entries.filter fun entry => compare entry.1 name == .lt).foldl (turn cfg) live

/-- Every parked value resolves at its turn. -/
def ResolvesInTurn (cfg : PropertyConfig) (p : ParkedValues) (live : LiveProperties) : Prop :=
  ∀ name v, p.get? name = some v →
    ∃ value?, intendedValue (p.atTurn cfg live name) v.model = .ok value?

/-! ### The least name -/

section

variable (hentries : p.values.entries = (name, v) :: rest)
include hentries

theorem get?_of_entries_cons : p.get? name = some v := by
  have hmem : (name, v) ∈ p.values.entries := by simp [hentries]
  exact SortedMap.mem_entries_iff.1 hmem

theorem entries_forget : (p.forget name).values.entries = rest := by
  show Entries.erase name p.values.entries = rest
  simp [hentries, Entries.erase, Std.ReflCmp.compare_self]

theorem keys_of_entries_cons : p.values.keys = name :: (p.forget name).values.keys := by
  have hrest := entries_forget hentries
  simp [SortedMap.keys, hentries, hrest]

/-- All other names for which something is parked come later. -/
theorem lt_of_parked (hne : other ≠ name) (hw : p.get? other = some w) :
    compare name other = .lt := by
  have hascending := p.values.ascending
  rw [hentries] at hascending
  have hlater := (List.pairwise_cons.1 hascending).1
  have hmem : (other, w) ∈ p.values.entries := SortedMap.mem_entries_iff.2 hw
  rw [hentries] at hmem
  rcases List.mem_cons.1 hmem with hsame | hmem
  · cases hsame
    exact absurd rfl hne
  · exact hlater (other, w) hmem

/-- Nothing is parked for a smaller name. -/
theorem get?_eq_none_of_lt (hlt : compare other name = .lt) : p.get? other = none := by
  cases hw : p.get? other with
  | none => rfl
  | some w =>
    have hgt := Std.OrientedCmp.gt_of_lt (lt_of_parked hentries (ne_of_compare_eq_lt hlt) hw)
    rw [hlt] at hgt
    cases hgt

/-- The least name has its turn right away. -/
theorem atTurn_of_entries_cons : p.atTurn cfg live name = live := by
  have hnone : p.values.entries.filter (fun entry => compare entry.1 name == .lt) = [] := by
    rw [List.filter_eq_nil_iff]
    intro entry hentry hlt
    have hparked : p.get? entry.1 = some entry.2 := SortedMap.mem_entries_iff.1 hentry
    rw [get?_eq_none_of_lt hentries (by simpa using hlt)] at hparked
    cases hparked
  unfold atTurn
  rw [hnone]
  rfl

/-- The names behind it find what its value leaves. -/
theorem atTurn_forget (hvalue : intendedValue live v.model = .ok value?)
    (hlt : compare name other = .lt) :
    p.atTurn cfg live other = (p.forget name).atTurn cfg (cfg.apply name value? live) other := by
  have hturn : turn cfg live (name, v) = cfg.apply name value? live := by
    unfold turn
    rw [hvalue]
  unfold atTurn
  rw [entries_forget hentries, hentries, List.filter_cons_of_pos (by simp [hlt]),
    List.foldl_cons, hturn]

/-! ### One step -/

theorem applyStrictly_of_error (hfault : intendedValue live v.model = .error fault) :
    p.applyStrictly cfg live = (.error fault, p, live) := by
  unfold applyStrictly
  rw [keys_of_entries_cons hentries, applyNamed, get?_of_entries_cons hentries]
  simp only [hfault]

theorem applyStrictly_of_ok (hvalue : intendedValue live v.model = .ok value?) :
    p.applyStrictly cfg live =
      (p.forget name).applyStrictly cfg (cfg.apply name value? live) := by
  unfold applyStrictly
  rw [keys_of_entries_cons hentries, applyNamed, get?_of_entries_cons hentries]
  simp only [hvalue]

end

/-! ### All steps -/

/-- What a pass has done when the names with `before` have had their turn, and no others. -/
structure Applies (cfg : PropertyConfig) (p : ParkedValues) (live : LiveProperties)
    (before : String → Bool) (p' : ParkedValues) (live' : LiveProperties) : Prop where
  /-- The values are applied one after the other, in name order. -/
  inOrder : ∃ changes, live' = cfg.applyEach changes live ∧
    changes.map Prod.fst = p.values.keys.filter before
  /-- A value that is applied is live as it resolved at its turn, and is no longer parked. -/
  applied : ∀ {name v}, before name = true → p.get? name = some v →
    intendedValue (p.atTurn cfg live name) v.model = .ok (live'.get? name) ∧
      p'.get? name = none
  /-- All other names have what they had, parked and live. -/
  kept : ∀ {name}, before name = false ∨ p.get? name = none →
    p'.get? name = p.get? name ∧ live'.get? name = live.get? name

namespace Applies

/-- Where nothing is parked for any of the names, nothing is done. -/
theorem of_not_parked (h : ∀ name, before name = true → p.get? name = none) :
    Applies cfg p live before p live where
  inOrder := by
    have hnone : p.values.keys.filter before = [] := by
      rw [List.filter_eq_nil_iff]
      intro name hname hbefore
      have hparked := SortedMap.mem_keys_iff.1 hname
      rw [show p.values.get? name = none from h name hbefore] at hparked
      cases hparked
    exact ⟨[], rfl, hnone.symm⟩
  applied hbefore hv := by
    rw [h _ hbefore] at hv
    cases hv
  kept _ := ⟨rfl, rfl⟩

/-- The least name goes first, and the others find what it leaves. -/
theorem cons (hentries : p.values.entries = (name, v) :: rest)
    (hvalue : intendedValue live v.model = .ok value?) (hname : before name = true)
    (h : Applies cfg (p.forget name) (cfg.apply name value? live) before p' live') :
    Applies cfg p live before p' live' where
  inOrder := by
    obtain ⟨changes, hlive, hchanges⟩ := h.inOrder
    refine ⟨(name, value?) :: changes, hlive, ?_⟩
    rw [keys_of_entries_cons hentries, List.filter_cons_of_pos hname, ← hchanges]
    rfl
  applied {other w} hbefore hw := by
    by_cases hne : other = name
    · -- the other values do not touch it any more
      subst hne
      cases (get?_of_entries_cons hentries).symm.trans hw
      have hgone : (p.forget other).get? other = none := p.get?_forget_self other
      obtain ⟨hparked, hlive⟩ := h.kept (.inr hgone)
      rw [atTurn_of_entries_cons hentries, hlive, cfg.get?_apply_self, hparked]
      exact ⟨hvalue, hgone⟩
    · have hlt := lt_of_parked hentries hne hw
      rw [atTurn_forget hentries hvalue hlt]
      rw [← p.get?_forget_of_ne hne] at hw
      exact h.applied hbefore hw
  kept {other} hother := by
    have hne : other ≠ name := by
      rintro rfl
      rcases hother with hafter | hnone
      · rw [hname] at hafter
        cases hafter
      · rw [get?_of_entries_cons hentries] at hnone
        cases hnone
    rw [← p.get?_forget_of_ne hne] at hother ⊢
    obtain ⟨hparked, hlive⟩ := h.kept hother
    exact ⟨hparked, hlive.trans (cfg.get?_apply_of_ne hne value? live)⟩

end Applies

/-- A pass applies all values, or stops at a value that does not resolve and has applied those of
    the smaller names. -/
theorem applyStrictly_cases (cfg : PropertyConfig) (p : ParkedValues) (live : LiveProperties) :
    ∃ outcome p' live', p.applyStrictly cfg live = (outcome, p', live') ∧
      (outcome = .ok () ∧ Applies cfg p live (fun _ => true) p' live' ∨
        ∃ name v fault, outcome = .error fault ∧ p.get? name = some v ∧
          live' = p.atTurn cfg live name ∧ intendedValue live' v.model = .error fault ∧
          Applies cfg p live (fun other => compare other name == .lt) p' live') := by
  -- along the entries, of which each step takes the first away
  induction hentries : p.values.entries generalizing p live with
  | nil =>
    have hkeys : p.values.keys = [] := by simp [SortedMap.keys, hentries]
    have hrun : p.applyStrictly cfg live = (.ok (), p, live) := by
      unfold applyStrictly
      rw [hkeys]
      rfl
    refine ⟨_, _, _, hrun, .inl ⟨rfl, .of_not_parked ?_⟩⟩
    intro name _
    cases hv : p.get? name with
    | none => rfl
    | some v =>
      have hmem : (name, v) ∈ p.values.entries := SortedMap.mem_entries_iff.2 hv
      simp [hentries] at hmem
  | cons entry rest ih =>
    obtain ⟨name, v⟩ := entry
    have hv := get?_of_entries_cons hentries
    cases hvalue : intendedValue live v.model with
    | error fault =>
      have hrun : p.applyStrictly cfg live = _ := applyStrictly_of_error hentries hvalue
      refine ⟨_, _, _, hrun, .inr ⟨name, v, fault, rfl, hv, ?_, hvalue, .of_not_parked ?_⟩⟩
      · exact (atTurn_of_entries_cons hentries).symm
      · intro other hlt
        exact get?_eq_none_of_lt hentries (by simpa using hlt)
    | ok value? =>
      obtain ⟨outcome, p', live', hrun, hcases⟩ :=
        ih (p.forget name) (cfg.apply name value? live) (entries_forget hentries)
      rw [← applyStrictly_of_ok hentries hvalue] at hrun
      refine ⟨outcome, p', live', hrun, ?_⟩
      rcases hcases with ⟨hok, happlies⟩ | ⟨stop, w, fault, herror, hw, hlive, hfault, happlies⟩
      · exact .inl ⟨hok, happlies.cons hentries hvalue rfl⟩
      · have hne : stop ≠ name := by
          rintro rfl
          rw [p.get?_forget_self] at hw
          cases hw
        rw [p.get?_forget_of_ne hne] at hw
        have hlt := lt_of_parked hentries hne hw
        rw [← atTurn_forget hentries hvalue hlt] at hlive
        have happlies := happlies.cons hentries hvalue (by simp [hlt])
        exact .inr ⟨stop, w, fault, herror, hw, hlive, hfault, happlies⟩

/-- What a strict pass comes to. -/
structure PassedStrictly (cfg : PropertyConfig) (p : ParkedValues) (live : LiveProperties)
    (outcome : Except Fault Unit) (p' : ParkedValues) (live' : LiveProperties) : Prop where
  /-- It goes through just if every value resolves at its turn. -/
  goes_iff : outcome = .ok () ↔ p.ResolvesInTurn cfg live
  /-- Then all values are applied, and nothing is parked any more. -/
  through : outcome = .ok () → p'.values = ∅ ∧ Applies cfg p live (fun _ => true) p' live'
  /-- Otherwise it fails with the fault of the first value that does not resolve at its turn. Those
      of the smaller names are applied, and those of the others are parked as before. -/
  stopped : ∀ {fault}, outcome = .error fault →
    ∃ name v, p.get? name = some v ∧ live' = p.atTurn cfg live name ∧
      intendedValue (p.atTurn cfg live name) v.model = .error fault ∧
      Applies cfg p live (fun other => compare other name == .lt) p' live'

/-- A strict pass stops at the first parked value that does not resolve, and before it has done just
    what it does if there is none. -/
theorem applyStrictly_stops_at_first (cfg : PropertyConfig) (p : ParkedValues)
    (live : LiveProperties) :
    PassedStrictly cfg p live (p.applyStrictly cfg live).1 (p.applyStrictly cfg live).2.1
      (p.applyStrictly cfg live).2.2 := by
  obtain ⟨outcome, p', live', hrun, hcases⟩ := applyStrictly_cases cfg p live
  rw [hrun]
  rcases hcases with ⟨rfl, happlies⟩ | ⟨name, v, fault, rfl, hv, rfl, hfault, happlies⟩
  · have hresolves : p.ResolvesInTurn cfg live := fun name v hv =>
      ⟨_, (happlies.applied rfl hv).1⟩
    have hempty : p'.values = ∅ := by
      apply SortedMap.ext_get?
      intro name
      show p'.get? name = none
      cases hv : p.get? name with
      | none => exact (happlies.kept (.inr hv)).1.trans hv
      | some v => exact (happlies.applied rfl hv).2
    exact ⟨iff_of_true rfl hresolves, fun _ => ⟨hempty, happlies⟩, nofun⟩
  · have hnot : ¬ p.ResolvesInTurn cfg live := by
      intro hresolves
      obtain ⟨value?, hvalue⟩ := hresolves name v hv
      rw [hfault] at hvalue
      cases hvalue
    refine ⟨iff_of_false nofun hnot, nofun, ?_⟩
    rintro _ ⟨⟩
    exact ⟨name, v, hv, rfl, hfault, happlies⟩

/-- The value of `b` finds that of `a` applied. The value of `c` does not resolve, so that `d` does
    not have its turn. -/
example :
    let referringTo (text : String) : ParkedValue :=
      { model := .ofList [("value", .expression text)], fault := .resolution text .unterminated }
    let p : ParkedValues := { values := .ofList [("a", referringTo "$\x7bx\x7d"),
      ("b", referringTo "$\x7ba\x7d"), ("c", referringTo "$\x7bd\x7d"),
      ("d", referringTo "$\x7bx\x7d")] }
    let (outcome, p', live') := p.applyStrictly {} { values := .ofList [("x", "1")] }
    outcome.isOk = false ∧ p'.values.keys = ["c", "d"] ∧
      live'.calls = [.set "a" "1", .set "b" "1"] := by
  decide +kernel

end ParkedValues

end ManagedModel
