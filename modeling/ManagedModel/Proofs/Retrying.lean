import Mathlib.Data.List.Perm.Subperm
import ManagedModel.Proofs.LiveAccess

/-! # Retrying parked values

    A retry applies parked values in rounds, each of which looks at the live
    properties as they are at its start.

    * `Round` says what one round does, name by name: what resolves at its start
      is applied, and nothing else is touched. `round_applyAll` shows it of the
      round that runs.
    * `Rounds` lists the starts of rounds that follow one another. Each leaves
      fewer values parked (`Rounds.length_add_size_le`), so there are no more of
      them than parked values.
    * `retry_reaches_fixed_point` says what the rounds of a retry come to: values
      that do not resolve, and a process that has the others. -/

namespace ManagedModel

namespace ParkedValues

variable {cfg : PropertyConfig} {p p' p₁ : ParkedValues} {live live' live₁ : LiveProperties}
  {name : String} {v : ParkedValue} {value? : Option String}

/-! ### One round -/

/-- A value is parked for the property, and this is what it resolves to. -/
def ResolvesTo (p : ParkedValues) (live : LiveProperties) (name : String)
    (value? : Option String) : Prop :=
  ∃ v, p.get? name = some v ∧ intendedValue live v.model = .ok value?

theorem mem_resolvable_iff :
    (name, value?) ∈ p.resolvable live ↔ p.ResolvesTo live name value? := by
  constructor
  · exact get?_of_mem_resolvable
  · rintro ⟨v, hv, hvalue⟩
    refine List.mem_filterMap.2 ⟨(name, v), SortedMap.mem_entries_iff.2 hv, ?_⟩
    dsimp only
    rw [hvalue]

/-- What a round does: it applies every parked value that resolves at its start, and there is one;
    the other properties keep what is parked for them, and what is live. -/
structure Round (p : ParkedValues) (live : LiveProperties) (p' : ParkedValues)
    (live' : LiveProperties) : Prop where
  progress : ∃ name value?, p.ResolvesTo live name value?
  applied : ∀ {name value?}, p.ResolvesTo live name value? →
    p'.get? name = none ∧ live'.get? name = value?
  others : ∀ {name}, (∀ value?, ¬ p.ResolvesTo live name value?) →
    p'.get? name = p.get? name ∧ live'.get? name = live.get? name

/-- A property of which no value is applied. -/
theorem get?_applyAll_of_forall_ne (cfg : PropertyConfig) {rs : List (String × Option String)}
    (hne : ∀ r ∈ rs, name ≠ r.1) (p : ParkedValues) (live : LiveProperties) :
    (applyAll cfg rs p live).1.get? name = p.get? name ∧
      (applyAll cfg rs p live).2.get? name = live.get? name := by
  induction rs generalizing p live with
  | nil => exact ⟨rfl, rfl⟩
  | cons r rs ih =>
    obtain ⟨hfirst, hrest⟩ := List.forall_mem_cons.1 hne
    obtain ⟨hparked, hlive⟩ := ih hrest (p.forget r.1) (cfg.apply r.1 r.2 live)
    exact ⟨hparked.trans (p.get?_forget_of_ne hfirst),
      hlive.trans (cfg.get?_apply_of_ne hfirst r.2 live)⟩

/-- A property of which a value is applied, where the values are those of different properties. -/
theorem get?_applyAll_of_mem (cfg : PropertyConfig) {rs : List (String × Option String)}
    (hne : rs.Pairwise fun r r' => r'.1 ≠ r.1) (hmem : (name, value?) ∈ rs) (p : ParkedValues)
    (live : LiveProperties) :
    (applyAll cfg rs p live).1.get? name = none ∧
      (applyAll cfg rs p live).2.get? name = value? := by
  induction rs generalizing p live with
  | nil => cases hmem
  | cons r rs ih =>
    obtain ⟨hfirst, hrest⟩ := List.pairwise_cons.1 hne
    rcases List.mem_cons.1 hmem with rfl | hmem
    · -- those applied afterwards are of other properties
      obtain ⟨hparked, hlive⟩ := get?_applyAll_of_forall_ne cfg
        (fun r hr => (hfirst r hr).symm) (p.forget name) (cfg.apply name value? live)
      exact ⟨hparked.trans (p.get?_forget_self name),
        hlive.trans (cfg.get?_apply_self name value? live)⟩
    · exact ih hrest hmem _ _

theorem round_applyAll (cfg : PropertyConfig) (h : p.resolvable live ≠ []) :
    Round p live (applyAll cfg (p.resolvable live) p live).1
      (applyAll cfg (p.resolvable live) p live).2 where
  progress := by
    obtain ⟨⟨name, value?⟩, hmem⟩ := List.exists_mem_of_ne_nil _ h
    exact ⟨name, value?, mem_resolvable_iff.1 hmem⟩
  applied hresolves :=
    get?_applyAll_of_mem cfg (p.resolvable_pairwise live) (mem_resolvable_iff.2 hresolves) p live
  others hnone := by
    refine get?_applyAll_of_forall_ne cfg ?_ p live
    rintro ⟨name, value?⟩ hmem rfl
    exact hnone value? (mem_resolvable_iff.1 hmem)

/-- Each of the values applied was parked. -/
theorem length_add_size_applyAll (cfg : PropertyConfig) {rs : List (String × Option String)}
    (hne : rs.Pairwise fun r r' => r'.1 ≠ r.1) {p : ParkedValues}
    (hparked : ∀ r ∈ rs, (p.get? r.1).isSome = true) (live : LiveProperties) :
    rs.length + (applyAll cfg rs p live).1.size = p.size := by
  induction rs generalizing p live with
  | nil => exact Nat.zero_add _
  | cons r rs ih =>
    obtain ⟨hfirst, hrest⟩ := List.pairwise_cons.1 hne
    obtain ⟨hhead, htail⟩ := List.forall_mem_cons.1 hparked
    have hsize : (p.forget r.1).size + 1 = p.size := SortedMap.size_erase hhead
    -- to forget one takes none of those away that follow
    have hkept : ∀ r' ∈ rs, ((p.forget r.1).get? r'.1).isSome = true := by
      intro r' hr'
      rw [p.get?_forget_of_ne (hfirst r' hr')]
      exact htail r' hr'
    have hcount := ih hrest hkept (cfg.apply r.1 r.2 live)
    show rs.length + 1 + (applyAll cfg rs (p.forget r.1) (cfg.apply r.1 r.2 live)).1.size = _
    omega

theorem length_resolvable_add_size (cfg : PropertyConfig) (p : ParkedValues)
    (live : LiveProperties) :
    (p.resolvable live).length + (applyAll cfg (p.resolvable live) p live).1.size = p.size := by
  refine length_add_size_applyAll cfg (p.resolvable_pairwise live) ?_ live
  rintro ⟨name, value?⟩ hmem
  obtain ⟨v, hv, -⟩ := get?_of_mem_resolvable hmem
  rw [hv]
  rfl

/-- The live properties receive the values of a round in name order. -/
theorem applyAll_snd (cfg : PropertyConfig) (rs : List (String × Option String))
    (p : ParkedValues) (live : LiveProperties) :
    (applyAll cfg rs p live).2 = cfg.applyEach rs live := by
  induction rs generalizing p live with
  | nil => rfl
  | cons r rs ih => exact ih _ _

theorem resolvesTo_or_forall_not (p : ParkedValues) (live : LiveProperties) (name : String) :
    (∃ value?, p.ResolvesTo live name value?) ∨ ∀ value?, ¬ p.ResolvesTo live name value? :=
  (Classical.em _).imp_right not_exists.1

namespace Round

/-- What is parked after a round was parked before. -/
theorem kept (h : Round p live p' live') (hv : p'.get? name = some v) :
    p.get? name = some v := by
  rcases p.resolvesTo_or_forall_not live name with ⟨value?, hresolves⟩ | hnone
  · rw [(h.applied hresolves).1] at hv
    cases hv
  · rw [← (h.others hnone).1, hv]

/-- Where a parked value is gone after a round, it is live. -/
theorem resolvesTo_of_gone (h : Round p live p' live') (hv : p.get? name = some v)
    (hgone : p'.get? name = none) : intendedValue live v.model = .ok (live'.get? name) := by
  rcases p.resolvesTo_or_forall_not live name with ⟨value?, hresolves⟩ | hnone
  · rw [(h.applied hresolves).2]
    obtain ⟨w, hw, hvalue⟩ := hresolves
    cases hv.symm.trans hw
    exact hvalue
  · rw [(h.others hnone).1, hv] at hgone
    cases hgone

/-- A property that has nothing parked, or still has, is as live as before. -/
theorem live_eq (h : Round p live p' live')
    (hname : p.get? name = none ∨ p'.get? name ≠ none) : live'.get? name = live.get? name := by
  rcases p.resolvesTo_or_forall_not live name with ⟨value?, hresolves⟩ | hnone
  · obtain ⟨v, hv, -⟩ := id hresolves
    rcases hname with hname | hname
    · rw [hv] at hname
      cases hname
    · exact absurd (h.applied hresolves).1 hname
  · exact (h.others hnone).2

/-- A round leaves fewer values parked. -/
theorem size_lt (h : Round p live p' live') : p'.size < p.size := by
  obtain ⟨name, value?, hresolves⟩ := h.progress
  obtain ⟨v, hv, -⟩ := id hresolves
  -- the name of a value applied comes on top of those that are left
  have hnew : name ∉ p'.values.keys := by
    rw [SortedMap.mem_keys_iff, Bool.not_eq_true, Option.isSome_eq_false_iff,
      Option.isNone_iff_eq_none]
    exact (h.applied hresolves).1
  have hnodup : (name :: p'.values.keys).Nodup :=
    List.nodup_cons.2 ⟨hnew, nodup_of_ascending p'.values.keys_ascending⟩
  have hsub : name :: p'.values.keys ⊆ p.values.keys := by
    refine List.cons_subset.2 ⟨SortedMap.mem_keys_iff.2 (Option.isSome_iff_exists.2 ⟨v, hv⟩), ?_⟩
    intro other hother
    obtain ⟨w, hw⟩ := Option.isSome_iff_exists.1 (SortedMap.mem_keys_iff.1 hother)
    exact SortedMap.mem_keys_iff.2 (Option.isSome_iff_exists.2 ⟨w, h.kept hw⟩)
  have hlength := (hnodup.subperm hsub).length_le
  simp only [List.length_cons, SortedMap.keys, List.length_map] at hlength
  exact hlength

end Round

/-! ### Round after round -/

/-- Rounds that follow one another, by what each of them starts from. -/
inductive Rounds :
    ParkedValues → LiveProperties → List (ParkedValues × LiveProperties) →
      ParkedValues → LiveProperties → Prop
  | nil (p : ParkedValues) (live : LiveProperties) : Rounds p live [] p live
  | cons {p p₁ p' : ParkedValues} {live live₁ live' : LiveProperties}
      {starts : List (ParkedValues × LiveProperties)} :
      Round p live p₁ live₁ → Rounds p₁ live₁ starts p' live' →
        Rounds p live ((p, live) :: starts) p' live'

namespace Rounds

variable {starts : List (ParkedValues × LiveProperties)}

/-- There are no more rounds than values whose parking they end. -/
theorem length_add_size_le (h : Rounds p live starts p' live') :
    starts.length + p'.size ≤ p.size := by
  induction h with
  | nil p live => exact Nat.le_of_eq (Nat.zero_add _)
  | cons hround _ ih =>
    have hlt := hround.size_lt
    rw [List.length_cons]
    omega

theorem kept (h : Rounds p live starts p' live') (hv : p'.get? name = some v) :
    p.get? name = some v := by
  induction h with
  | nil p live => exact hv
  | cons hround _ ih => exact hround.kept (ih hv)

/-- A property that has nothing parked in the beginning, or still has in the end, is as live as in
    the beginning. -/
theorem live_eq (h : Rounds p live starts p' live')
    (hname : p.get? name = none ∨ p'.get? name ≠ none) : live'.get? name = live.get? name := by
  induction h with
  | nil p live => rfl
  | @cons p p₁ p' live live₁ live' starts hround hrounds ih =>
    have hlater : p₁.get? name = none ∨ p'.get? name ≠ none := by
      refine hname.imp_left fun hnone => ?_
      cases hv : p₁.get? name with
      | none => rfl
      | some v =>
        rw [hround.kept hv] at hnone
        cases hnone
    have hnow : p.get? name = none ∨ p₁.get? name ≠ none := by
      refine hname.imp_right fun hsome => ?_
      obtain ⟨v, hv⟩ := Option.ne_none_iff_exists'.1 hsome
      rw [hrounds.kept hv]
      exact Option.some_ne_none v
    rw [ih hlater, hround.live_eq hnow]

/-- Where a parked value is gone in the end, it is live with what it resolved to at the start of the
    round that applied it. -/
theorem exists_start_of_gone (h : Rounds p live starts p' live') (hv : p.get? name = some v)
    (hgone : p'.get? name = none) :
    ∃ start ∈ starts, start.1.get? name = some v ∧
      intendedValue start.2 v.model = .ok (live'.get? name) := by
  -- the round looked for is the first after which the value is gone
  induction h with
  | nil p live =>
    rw [hv] at hgone
    cases hgone
  | @cons p p₁ p' live live₁ live' starts hround hrounds ih =>
    cases hv₁ : p₁.get? name with
    | none =>
      -- the first round applies it, and none of the others touches it
      refine ⟨(p, live), List.mem_cons_self, hv, ?_⟩
      rw [hrounds.live_eq (.inl hv₁)]
      exact hround.resolvesTo_of_gone hv hv₁
    | some w =>
      cases hv.symm.trans (hround.kept hv₁)
      obtain ⟨start, hstart, hparked, hvalue⟩ := ih hv₁ hgone
      exact ⟨start, List.mem_cons_of_mem _ hstart, hparked, hvalue⟩

/-- Where no value resolves, there is no round. -/
theorem eq_of_forall_not (h : Rounds p live starts p' live')
    (hnone : ∀ name value?, ¬ p.ResolvesTo live name value?) :
    starts = [] ∧ p' = p ∧ live' = live := by
  cases h with
  | nil => exact ⟨rfl, rfl, rfl⟩
  | cons hround _ =>
    obtain ⟨name, value?, hresolves⟩ := hround.progress
    exact absurd hresolves (hnone name value?)

end Rounds

/-! ### The retry -/

/-- The changes of live properties that the rounds with these starts make. -/
def changesOf (starts : List (ParkedValues × LiveProperties)) : List (String × Option String) :=
  starts.flatMap fun start => start.1.resolvable start.2

/-- A retry goes through rounds. It counts the changes that they make, and makes no others. -/
theorem rounds_retry (cfg : PropertyConfig) (p : ParkedValues) (live : LiveProperties) :
    ∃ starts, Rounds p live starts (p.retry cfg live).2.1 (p.retry cfg live).2.2 ∧
      (p.retry cfg live).2.2 = cfg.applyEach (changesOf starts) live ∧
      (p.retry cfg live).1 = (changesOf starts).length ∧
      (p.retry cfg live).1 + (p.retry cfg live).2.1.size = p.size := by
  -- along the recursion, which ends with a round that finds nothing to apply
  fun_induction retry cfg p live with
  | case1 p live hnone => exact ⟨[], .nil p live, rfl, rfl, Nat.zero_add _⟩
  | case2 p live r rs hsome _ next count p' live' hnext ih =>
    obtain ⟨starts, hrounds, hlive, hcount, hsize⟩ := ih
    rw [hnext] at hrounds hlive hcount hsize
    have hround : Round p live next.1 next.2 := by
      have hne : p.resolvable live ≠ [] := by
        rw [hsome]
        exact List.cons_ne_nil r rs
      have h := round_applyAll cfg hne
      rw [hsome] at h
      exact h
    have hfirst : rs.length + 1 + next.1.size = p.size := by
      have h := length_resolvable_add_size cfg p live
      rw [hsome] at h
      exact h
    have hchanges : changesOf ((p, live) :: starts) = (r :: rs) ++ changesOf starts := by
      unfold changesOf
      rw [List.flatMap_cons, hsome]
    refine ⟨(p, live) :: starts, .cons hround hrounds, ?_, ?_, ?_⟩
    · rw [hchanges]
      show live' = _
      rw [show live' = _ from hlive, show next.2 = _ from applyAll_snd cfg (r :: rs) p live]
      exact (List.foldl_append ..).symm
    · rw [hchanges, List.length_append, ← hcount, List.length_cons]
    · dsimp only at hsize ⊢
      omega

/-- What a retry comes to that goes through rounds with these starts. -/
structure Retried (cfg : PropertyConfig) (p : ParkedValues) (live : LiveProperties)
    (starts : List (ParkedValues × LiveProperties)) (count : Nat) (p' : ParkedValues)
    (live' : LiveProperties) : Prop where
  rounds : Rounds p live starts p' live'
  /-- However rounds are gone through, they come to an end. -/
  bounded : ∀ {starts' q live₁}, Rounds p live starts' q live₁ → starts'.length ≤ p.size
  /-- The count is the number of values that are no longer parked. -/
  count_eq : count + p'.size = p.size
  /-- No value that is left resolves. -/
  stuck : ∀ {name v}, p'.get? name = some v → ∃ fault, intendedValue live' v.model = .error fault
  /-- A value that is left is the one parked before, with its model and its fault. -/
  kept : ∀ {name v}, p'.get? name = some v → p.get? name = some v
  /-- A value that is not left is live, as it resolved at the start of the round that applied it. -/
  applied : ∀ {name v}, p.get? name = some v → p'.get? name = none →
    ∃ start ∈ starts, start.1.get? name = some v ∧
      intendedValue start.2 v.model = .ok (live'.get? name)
  /-- The live properties whose values were not applied are as before. -/
  others : ∀ {name}, p.get? name = none ∨ p'.get? name ≠ none →
    live'.get? name = live.get? name
  /-- The live properties receive one call for each value applied, round by round. -/
  calls : live'.calls = live.calls ++
    (changesOf starts).map (fun change => PropertyChange.of change.1 change.2) ∧
      (changesOf starts).length = count
  /-- Where no value resolves, nothing happens. -/
  idle : (∀ name value?, ¬ p.ResolvesTo live name value?) → count = 0 ∧ p' = p ∧ live' = live

/-- Retrying computes a fixed point: round by round it applies what resolves at the start of the
    round, until no parked value resolves. -/
theorem retry_reaches_fixed_point (cfg : PropertyConfig) (p : ParkedValues)
    (live : LiveProperties) :
    ∃ starts, Retried cfg p live starts (p.retry cfg live).1 (p.retry cfg live).2.1
      (p.retry cfg live).2.2 := by
  obtain ⟨starts, hrounds, hlive, hcount, hsize⟩ := rounds_retry cfg p live
  refine ⟨starts, {
    rounds := hrounds
    bounded := fun h => Nat.le_trans (Nat.le_add_right _ _) h.length_add_size_le
    count_eq := hsize
    stuck := fun hv => error_of_resolvable_eq_nil (p.resolvable_retry cfg live) hv
    kept := hrounds.kept
    applied := hrounds.exists_start_of_gone
    others := hrounds.live_eq
    calls := ⟨by rw [hlive, cfg.calls_applyEach], hcount.symm⟩
    idle := fun hnone => ?_ }⟩
  obtain ⟨hstarts, hp, hsame⟩ := hrounds.eq_of_forall_not hnone
  refine ⟨?_, hp, hsame⟩
  rw [hcount, hstarts]
  rfl

/-- A chain is applied from its end, one link a round; a value that refers to itself stays. -/
example :
    let referringTo (text : String) : ParkedValue :=
      { model := .ofList [("value", .expression text)], fault := .resolution text .unterminated }
    let p : ParkedValues := { values := .ofList [("a", referringTo "$\x7bb\x7d"),
      ("b", referringTo "$\x7bc\x7d"), ("d", referringTo "$\x7bd\x7d")] }
    let (count, p', live') := p.retry {} { values := .ofList [("c", "1")] }
    count = 2 ∧ p'.values.keys = ["d"] ∧ live'.calls = [.set "b" "1", .set "a" "1"] := by
  decide +kernel

end ParkedValues

end ManagedModel
