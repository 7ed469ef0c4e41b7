import ManagedModel.Proofs.Course.Alignment
import ManagedModel.Proofs.Expressions

/-! # What properties resolve to

    The updates of a transaction apply values that refer to each other. Where
    every reference names one property and gives no default, more live
    properties never change what a value resolves to (`intendedValue_mono`).
    What the updates come to can then be told without their order.

    * Live properties are `Closed` under updates if every update whose value
      resolves has been applied.
    * Those that the updates leave behind are closed, and they are below all
      that are closed (`Advanced.least`).
    * So any order leaves the same live properties
      (`Alignment.HasAdvanced.get?_eq_of_perm`) and either settles or does not
      (`Alignment.settle_of_perm`). -/

namespace ManagedModel

/-! ### Values with plain references -/

namespace Expression

/-- Each reference names one property and gives no default. -/
def Segment.IsPlain : Segment → Prop
  | .literal _ | .unterminated => True
  | .reference names default? => default? = none ∧ ∃ name, names = [name]

/-- All references in the text are plain. -/
def IsPlain (text : String) : Prop := ∀ s ∈ segments text.toList, s.IsPlain

variable {lookup lookup' : String → Option String}

/-- A look-up that finds more finds the value of a plain reference, too. -/
theorem resolveSegment_mono {s : Segment} (hplain : s.IsPlain)
    (hmono : ∀ {name x}, lookup name = some x → lookup' name = some x) {cs : List Char}
    (h : resolveSegment lookup s = .ok cs) : resolveSegment lookup' s = .ok cs := by
  cases s with
  | literal c => exact h
  | unterminated => exact h
  | reference names default? =>
    obtain ⟨rfl, name, rfl⟩ := hplain
    change resolveReference lookup [name] none = .ok cs at h
    show resolveReference lookup' [name] none = .ok cs
    unfold resolveReference at h ⊢
    by_cases hempty : [name].any List.isEmpty
    · rw [if_pos hempty] at h
      cases h
    · rw [if_neg hempty] at h ⊢
      rw [List.findSome?_cons] at h ⊢
      cases hvalue : lookup (String.ofList name) with
      | none =>
        rw [hvalue] at h
        cases h
      | some value =>
        rw [hvalue] at h
        rw [hmono hvalue]
        exact h

theorem resolveSegments_mono {ss : List Segment} (hplain : ∀ s ∈ ss, s.IsPlain)
    (hmono : ∀ {name x}, lookup name = some x → lookup' name = some x) {cs : List Char}
    (h : resolveSegments lookup ss = .ok cs) : resolveSegments lookup' ss = .ok cs := by
  induction ss generalizing cs with
  | nil => exact h
  | cons s ss ih =>
    obtain ⟨hfirst, hrest⟩ := List.forall_mem_cons.1 hplain
    unfold resolveSegments at h ⊢
    obtain ⟨text, htext, h⟩ := bind_eq_ok.1 h
    obtain ⟨texts, htexts, h⟩ := bind_eq_ok.1 h
    refine bind_eq_ok.2 ⟨text, resolveSegment_mono hfirst hmono htext, ?_⟩
    exact bind_eq_ok.2 ⟨texts, ih hrest htexts, h⟩

theorem resolve_mono {text : String} (hplain : IsPlain text)
    (hmono : ∀ {name x}, lookup name = some x → lookup' name = some x) {value : String}
    (h : resolve lookup text = .ok value) : resolve lookup' text = .ok value := by
  rw [resolve_eq] at h ⊢
  cases hsegments : resolveSegments lookup (segments text.toList) with
  | error cause =>
    rw [hsegments] at h
    cases h
  | ok cs =>
    rw [hsegments] at h
    rw [resolveSegments_mono hplain hmono hsegments]
    exact h

end Expression

/-- Every property of the first has the same value in the second. -/
def LiveProperties.Below (live live' : LiveProperties) : Prop :=
  ∀ ⦃name x⦄, live.get? name = some x → live'.get? name = some x

namespace LiveProperties.Below

variable {live live' live'' : LiveProperties}

theorem refl (live : LiveProperties) : live.Below live := fun _ _ h => h

theorem trans (h : live.Below live') (h' : live'.Below live'') : live.Below live'' :=
  fun _ _ hx => h' (h hx)

theorem antisymm (h : live.Below live') (h' : live'.Below live) (name : String) :
    live.get? name = live'.get? name := by
  cases hx : live.get? name with
  | some x => exact (h hx).symm
  | none =>
    cases hx' : live'.get? name with
    | none => rfl
    | some x =>
      rw [h' hx'] at hx
      cases hx

/-- A property that had no value may get one. -/
theorem apply {name : String} (hnone : live.get? name = none) (cfg : PropertyConfig)
    (x? : Option String) : live.Below (cfg.apply name x? live) := by
  intro other x hx
  have hne : other ≠ name := by
    rintro rfl
    rw [hnone] at hx
    cases hx
  rw [cfg.get?_apply_of_ne hne]
  exact hx

end LiveProperties.Below

/-- The value in the attributes of a property's resource has plain references, if any. -/
def HasPlainValue (model : Attributes) : Prop :=
  ∀ e, model.get? propertyValueAttribute = some (.expression e) → Expression.IsPlain e

/-- What a value with plain references resolves to, it resolves to still with more live
    properties. -/
theorem intendedValue_mono {live live' : LiveProperties} {model : Attributes}
    (hplain : HasPlainValue model) (hbelow : live.Below live') {x? : Option String}
    (h : intendedValue live model = .ok x?) : intendedValue live' model = .ok x? := by
  unfold intendedValue at h ⊢
  cases hvalue : model.get? propertyValueAttribute with
  | none =>
    rw [hvalue] at h
    exact h
  | some v =>
    rw [hvalue] at h
    cases v with
    | expression e =>
      change (Expression.resolve live.get? e).map some = _ at h
      show (Expression.resolve live'.get? e).map some = _
      cases htext : Expression.resolve live.get? e with
      | error fault =>
        rw [htext] at h
        cases h
      | ok text =>
        rw [htext] at h
        rw [Expression.resolve_mono (hplain e hvalue) (fun hx => hbelow hx) htext]
        exact h
    | _ => exact h

/-! ### Closed live properties -/

/-- The updates are of different properties, that have no live value at the beginning; and their
    values have plain references. -/
structure Forward (live₀ : LiveProperties) (us : List PendingUpdate) : Prop where
  distinct : us.Pairwise fun u w => u.name ≠ w.name
  unset : ∀ u ∈ us, live₀.get? u.name = none
  plain : ∀ u ∈ us, HasPlainValue u.model

namespace Forward

variable {live₀ : LiveProperties} {us ws : List PendingUpdate} {u w : PendingUpdate}

theorem eq_of_name_eq (h : Forward live₀ us) (hu : u ∈ us) (hw : w ∈ us)
    (hname : u.name = w.name) : u = w := by
  have hdistinct := h.distinct
  -- only the names matter from here on; the other conditions would be in the way of the induction
  clear h
  induction us with
  | nil => cases hu
  | cons v us ih =>
    obtain ⟨hfirst, hrest⟩ := List.pairwise_cons.1 hdistinct
    rcases List.mem_cons.1 hu with rfl | hu'
    · rcases List.mem_cons.1 hw with rfl | hw'
      · rfl
      · exact absurd hname (hfirst w hw')
    · rcases List.mem_cons.1 hw with rfl | hw'
      · exact absurd hname.symm (hfirst u hu')
      · exact ih hu' hw' hrest

theorem of_append (h : Forward live₀ (us ++ ws)) : Forward live₀ us :=
  ⟨(List.pairwise_append.1 h.distinct).1, fun u hu => h.unset u (List.mem_append_left _ hu),
    fun u hu => h.plain u (List.mem_append_left _ hu)⟩

theorem perm (h : Forward live₀ us) (hperm : us.Perm ws) : Forward live₀ ws :=
  ⟨(hperm.pairwise_iff fun hne => hne.symm).1 h.distinct, fun u hu => h.unset u (hperm.mem_iff.2 hu),
    fun u hu => h.plain u (hperm.mem_iff.2 hu)⟩

end Forward

/-- The live properties are at least those of the beginning, and every update that is to reach the
    process and whose value resolves has been applied. -/
structure Closed (live₀ : LiveProperties) (us : List PendingUpdate) (live : LiveProperties) :
    Prop where
  above : live₀.Below live
  applied : ∀ {u : PendingUpdate} {x? : Option String}, u ∈ us → u.effect = .apply →
    intendedValue live u.model = .ok x? → live.get? u.name = x?

theorem Closed.of_subset {live₀ live : LiveProperties} {us ws : List PendingUpdate}
    (h : Closed live₀ ws live) (hsub : us ⊆ ws) : Closed live₀ us live :=
  ⟨h.above, fun hu heffect hvalue => h.applied (hsub hu) heffect hvalue⟩

/-! ### How far the updates have come -/

/-- The attributes that are parked for a property. -/
def ParkedValues.modelAt (p : ParkedValues) (name : String) : Option Attributes :=
  (p.get? name).map (·.model)

/-- Of the updates, those whose value is not parked have been applied; nothing else has changed;
    and nothing was applied that is not in all closed live properties. -/
structure Advanced (live₀ : LiveProperties) (us : List PendingUpdate)
    (parked : String → Option Attributes) (live : LiveProperties) : Prop where
  unapplied : ∀ {name model}, parked name = some model → live.get? name = none ∧
    ∃ u ∈ us, u.effect = .apply ∧ u.name = name ∧ u.model = model
  applied : ∀ {u : PendingUpdate}, u ∈ us → u.effect = .apply → parked u.name = none →
    intendedValue live u.model = .ok (live.get? u.name)
  above : live₀.Below live
  others : ∀ {name}, (∀ u ∈ us, u.name ≠ name) → live.get? name = live₀.get? name
  least : ∀ {live'}, Closed live₀ us live' → live.Below live'

namespace Advanced

variable {cfg : PropertyConfig} {live₀ live : LiveProperties} {us : List PendingUpdate}
  {parked parked' : String → Option Attributes} {u : PendingUpdate}

theorem start (live₀ : LiveProperties) : Advanced live₀ [] (fun _ => none) live₀ where
  unapplied h := nomatch h
  applied h := nomatch h
  above := .refl live₀
  others _ := rfl
  least h := h.above

/-- An update that does not reach the process. -/
theorem skip (h : Advanced live₀ us parked live) (heffect : u.effect ≠ .apply) :
    Advanced live₀ (us ++ [u]) parked live := by
  refine ⟨?_, ?_, h.above, ?_, ?_⟩
  · intro name model hmodel
    obtain ⟨hnone, w, hw, hrest⟩ := h.unapplied hmodel
    exact ⟨hnone, w, List.mem_append_left _ hw, hrest⟩
  · intro w hw hweffect hnone
    rcases List.mem_append.1 hw with hold | hnew
    · exact h.applied hold hweffect hnone
    · rw [List.mem_singleton.1 hnew] at hweffect
      exact absurd hweffect heffect
  · intro name hname
    exact h.others fun w hw => hname w (List.mem_append_left _ hw)
  · intro live' hclosed
    exact h.least (hclosed.of_subset fun w hw => List.mem_append_left _ hw)

/-- One more update is parked. -/
theorem park (h : Advanced live₀ us parked live) (hforward : Forward live₀ (us ++ [u]))
    (heffect : u.effect = .apply) (hself : parked' u.name = some u.model)
    (hothers : ∀ name, name ≠ u.name → parked' name = parked name) :
    Advanced live₀ (us ++ [u]) parked' live := by
  have hlast : u ∈ us ++ [u] := List.mem_append_right us (List.mem_singleton_self u)
  have hfresh : ∀ w ∈ us, w.name ≠ u.name := fun w hw =>
    (List.pairwise_append.1 hforward.distinct).2.2 w hw u (List.mem_singleton_self u)
  refine ⟨?_, ?_, h.above, ?_, ?_⟩
  · intro name model hmodel
    by_cases hname : name = u.name
    -- no update before was of this property, so it is as at the beginning: without a value
    · subst hname
      rw [hself] at hmodel
      cases hmodel
      refine ⟨?_, u, hlast, heffect, rfl, rfl⟩
      rw [h.others hfresh]
      exact hforward.unset u hlast
    · rw [hothers name hname] at hmodel
      obtain ⟨hnone, w, hw, hrest⟩ := h.unapplied hmodel
      exact ⟨hnone, w, List.mem_append_left _ hw, hrest⟩
  · intro w hw hweffect hnone
    rcases List.mem_append.1 hw with hold | hnew
    · rw [hothers w.name (hfresh w hold)] at hnone
      exact h.applied hold hweffect hnone
    · rw [List.mem_singleton.1 hnew, hself] at hnone
      cases hnone
  · intro name hname
    exact h.others fun w hw => hname w (List.mem_append_left _ hw)
  · intro live' hclosed
    exact h.least (hclosed.of_subset fun w hw => List.mem_append_left _ hw)

/-- A parked update is applied, the value of which resolved in earlier live properties. -/
theorem apply (h : Advanced live₀ us parked live) (hforward : Forward live₀ us)
    {name : String} {model : Attributes} {x? : Option String} {earlier : LiveProperties}
    (hmodel : parked name = some model) (hearlier : earlier.Below live)
    (hvalue : intendedValue earlier model = .ok x?) (hself : parked' name = none)
    (hothers : ∀ other, other ≠ name → parked' other = parked other) :
    Advanced live₀ us parked' (cfg.apply name x? live) := by
  obtain ⟨hnone, u, hu, heffect, rfl, rfl⟩ := h.unapplied hmodel
  have hplain : HasPlainValue u.model := hforward.plain u hu
  have hmore : live.Below (cfg.apply u.name x? live) := .apply hnone cfg x?
  refine ⟨?_, ?_, h.above.trans hmore, ?_, ?_⟩
  · intro other model hother
    have hne : other ≠ u.name := by
      rintro rfl
      rw [hself] at hother
      cases hother
    rw [hothers other hne] at hother
    rw [cfg.get?_apply_of_ne hne]
    exact h.unapplied hother
  · intro w hw hweffect hwnone
    by_cases hname : w.name = u.name
    -- the value was resolved in earlier live properties, and there are only more of them now
    · obtain rfl := hforward.eq_of_name_eq hw hu hname
      rw [cfg.get?_apply_self]
      exact intendedValue_mono hplain (hearlier.trans hmore) hvalue
    · rw [hothers w.name hname] at hwnone
      rw [cfg.get?_apply_of_ne hname]
      exact intendedValue_mono (hforward.plain w hw) hmore (h.applied hw hweffect hwnone)
  · intro other hother
    have hne : other ≠ u.name := fun e => hother u hu e.symm
    rw [cfg.get?_apply_of_ne hne]
    exact h.others hother
  · intro live' hclosed other x hx
    by_cases hname : other = u.name
    · -- the value resolves in `live'` as well, which is closed
      subst hname
      rw [cfg.get?_apply_self] at hx
      subst hx
      have hthere := intendedValue_mono hplain (hearlier.trans (h.least hclosed)) hvalue
      exact hclosed.applied hu heffect hthere
    · rw [cfg.get?_apply_of_ne hname] at hx
      exact h.least hclosed hx

theorem applyAll (cfg : PropertyConfig) {p : ParkedValues} (h : Advanced live₀ us p.modelAt live)
    (hforward : Forward live₀ us) :
    Advanced live₀ us (ParkedValues.applyAll cfg (p.resolvable live) p live).1.modelAt
      (ParkedValues.applyAll cfg (p.resolvable live) p live).2 := by
  -- all values were resolved at the start of the round, and since then there are only more
  -- live properties
  refine (ParkedValues.applyAll_keeps
    (I := fun p' live' => Advanced live₀ us p'.modelAt live' ∧ live.Below live') ?_
    (p.resolvable_pairwise live) (fun _ => ParkedValues.get?_of_mem_resolvable)
    ⟨h, .refl live⟩).1
  rintro p' live' name v x? ⟨h', hmore⟩ hv hvalue
  have hmodel : p'.modelAt name = some v.model := by
    unfold ParkedValues.modelAt
    rw [hv]
    rfl
  refine ⟨h'.apply hforward hmodel hmore hvalue ?_ ?_, hmore.trans (.apply ?_ cfg x?)⟩
  · unfold ParkedValues.modelAt
    rw [p'.get?_forget_self]
    rfl
  · intro other hne
    unfold ParkedValues.modelAt
    rw [p'.get?_forget_of_ne hne]
  · exact (h'.unapplied hmodel).1

end Advanced

/-! ### The process during a transaction -/

namespace Alignment

variable {cfg : PropertyConfig} {booting : Bool} {live₀ : LiveProperties}
  {us ws : List PendingUpdate} {u : PendingUpdate} {m m' : Alignment}

/-- The attributes that are parked for a property. -/
def modelAt (m : Alignment) (name : String) : Option Attributes := (m.parkedAt name).map (·.model)

theorem modelAt_eq_some {name : String} {model : Attributes} :
    m.modelAt name = some model ↔ ∃ v, m.parkedAt name = some v ∧ v.model = model :=
  Option.map_eq_some_iff

theorem modelAt_congr {name : String} (h : m'.parkedAt name = m.parkedAt name) :
    m'.modelAt name = m.modelAt name := by
  unfold modelAt
  rw [h]

/-- The process has come so far with the updates, and no parked value resolves. -/
structure HasAdvanced (live₀ : LiveProperties) (us : List PendingUpdate) (m : Alignment) : Prop where
  advanced : Advanced live₀ us m.modelAt m.live
  stuck : m.Stuck

theorem hasAdvanced_retry (h : Advanced live₀ us m.modelAt m.live) (hforward : Forward live₀ us) :
    (m.retry cfg).HasAdvanced live₀ us := by
  refine ⟨?_, stuck_retry cfg m⟩
  unfold retry
  cases hp : m.parked? with
  | none => exact h
  | some p =>
    have hmodels : m.modelAt = p.modelAt := by
      funext name
      unfold modelAt parkedAt
      rw [hp]
      rfl
    rw [hmodels] at h
    exact ParkedValues.retry_keeps_of_round (I := fun p live => Advanced live₀ us p.modelAt live)
      (fun h => h.applyAll cfg hforward) h

theorem HasAdvanced.update (h : m.HasAdvanced live₀ us) (hforward : Forward live₀ (us ++ [u])) :
    (m.update cfg booting u).HasAdvanced live₀ (us ++ [u]) := by
  refine ⟨?_, h.stuck.update u⟩
  by_cases heffect : u.effect = .apply
  · unfold Alignment.update
    rw [heffect]
    cases hvalue : intendedValue m.live u.model with
    | ok x? =>
      -- to apply the update at once is to park it and to apply what was parked
      let parked name := if name = u.name then some u.model else m.modelAt name
      have hself : parked u.name = some u.model := if_pos rfl
      have hothers : ∀ name, name ≠ u.name → parked name = m.modelAt name := fun _ hne => if_neg hne
      have hparked := h.advanced.park hforward heffect hself hothers
      refine (hasAdvanced_retry ?_ hforward).advanced
      refine hparked.apply hforward hself (.refl m.live) hvalue ?_ ?_
      · show ((m.beginUpdate u.name).parkedAt u.name).map _ = none
        rw [m.parkedAt_beginUpdate_self]
        rfl
      · intro name hne
        rw [hothers name hne]
        exact modelAt_congr (m.parkedAt_beginUpdate_of_ne hne)
    | error fault =>
      have hothers : ∀ name, name ≠ u.name →
          ((m.beginUpdate u.name).defer booting u.name u.model fault).parkedAt name =
            m.parkedAt name := by
        intro name hne
        rw [parkedAt_defer_of_ne booting hne, m.parkedAt_beginUpdate_of_ne hne]
      have hself := (m.beginUpdate u.name).parkedAt_defer_self booting u.name u.model fault
      exact h.advanced.park hforward heffect (modelAt_eq_some.2 ⟨_, hself, rfl⟩) fun name hne =>
        modelAt_congr (hothers name hne)
  · have hskipped := h.advanced.skip heffect
    unfold Alignment.update
    cases hu : u.effect with
    | apply => exact absurd hu heffect
    | reload => exact hskipped
    | none => exact hskipped

theorem HasAdvanced.updateAll (h : m.HasAdvanced live₀ us) (hforward : Forward live₀ (us ++ ws)) :
    (m.updateAll cfg booting ws).HasAdvanced live₀ (us ++ ws) := by
  induction ws generalizing us m with
  | nil =>
    rw [List.append_nil]
    exact h
  | cons u ws ih =>
    have hsplit : us ++ u :: ws = us ++ [u] ++ ws := by simp
    rw [hsplit] at hforward ⊢
    exact ih (h.update hforward.of_append) hforward

/-- What the updates of a transaction come to. -/
theorem hasAdvanced_updateAll (cfg : PropertyConfig) (booting : Bool)
    (hforward : Forward live₀ us) :
    (({ live := live₀ } : Alignment).updateAll cfg booting us).HasAdvanced live₀ us := by
  have hstart : ({ live := live₀ } : Alignment).HasAdvanced live₀ [] :=
    ⟨.start live₀, fun _ _ hv => (nomatch hv)⟩
  exact hstart.updateAll hforward

/-- Where no parked value resolves, the live properties are closed. -/
theorem HasAdvanced.closed (h : m.HasAdvanced live₀ us) (hforward : Forward live₀ us) :
    Closed live₀ us m.live := by
  refine ⟨h.advanced.above, ?_⟩
  intro u x? hu heffect hvalue
  cases hparked : m.parkedAt u.name with
  | none =>
    have happlied := h.advanced.applied hu heffect (by unfold modelAt; rw [hparked]; rfl)
    rw [hvalue] at happlied
    exact (Except.ok.inj happlied).symm
  | some v =>
    -- the parked value would be the one that resolves, but none does
    obtain ⟨-, w, hw, -, hname, hmodel⟩ := h.advanced.unapplied (modelAt_eq_some.2 ⟨v, hparked, rfl⟩)
    obtain rfl := hforward.eq_of_name_eq hw hu hname
    obtain ⟨fault, hfault⟩ := h.stuck hparked
    rw [← hmodel, hvalue] at hfault
    cases hfault

/-! ### Any order -/

section Order

variable (h : m.HasAdvanced live₀ us) (h' : m'.HasAdvanced live₀ ws) (hperm : us.Perm ws)
  (hforward : Forward live₀ us)

include h h' hperm hforward

/-- The live properties are the least that are closed, whatever the order. -/
theorem HasAdvanced.get?_eq_of_perm (name : String) : m.live.get? name = m'.live.get? name := by
  have hclosed : Closed live₀ us m.live := h.closed hforward
  have hclosed' : Closed live₀ ws m'.live := h'.closed (hforward.perm hperm)
  refine LiveProperties.Below.antisymm ?_ ?_ name
  · exact h.advanced.least (hclosed'.of_subset hperm.subset)
  · exact h'.advanced.least (hclosed.of_subset hperm.symm.subset)

theorem HasAdvanced.values_eq_of_perm : m.live.values = m'.live.values :=
  SortedMap.ext_get? (h.get?_eq_of_perm h' hperm hforward)

/-- If one order leaves nothing parked, no order does. -/
theorem HasAdvanced.parkedAt_of_perm (hnone : ∀ name, m.parkedAt name = none) (name : String) :
    m'.parkedAt name = none := by
  cases hparked : m'.parkedAt name with
  | none => rfl
  | some v =>
    -- in the first order this update was applied, so its value resolves in the live properties
    -- that both orders share
    obtain ⟨-, u, hu, heffect, rfl, hmodel⟩ :=
      h'.advanced.unapplied (modelAt_eq_some.2 ⟨v, hparked, rfl⟩)
    have happlied := h.advanced.applied (hperm.mem_iff.2 hu) heffect
      (by unfold modelAt; rw [hnone]; rfl)
    obtain ⟨fault, hfault⟩ := h'.stuck hparked
    have hlive : m.live.get? = m'.live.get? := funext (h.get?_eq_of_perm h' hperm hforward)
    unfold intendedValue at happlied hfault
    rw [hlive, hmodel, hfault] at happlied
    cases happlied

end Order

/-- If the updates settle in one order, they settle in every order, and leave the same live
    properties. -/
theorem settle_of_perm (hperm : us.Perm ws) (hforward : Forward live₀ us)
    (h : (({ live := live₀ } : Alignment).updateAll cfg booting us).settle cfg = (.ok (), m)) :
    ∃ m', (({ live := live₀ } : Alignment).updateAll cfg booting ws).settle cfg = (.ok (), m') ∧
      m'.live.values = m.live.values := by
  have hone := hasAdvanced_updateAll cfg booting hforward
  have hother := hasAdvanced_updateAll cfg booting (hforward.perm hperm)
  have hchecked : ∀ vs, (({ live := live₀ } : Alignment).updateAll cfg booting vs).Checked :=
    fun vs => Checked.updateAll (fun _ hparked => absurd rfl hparked) vs
  -- no parked value resolves, so the pass at the end changes nothing
  have hsame : (({ live := live₀ } : Alignment).updateAll cfg booting us) = m := by
    have hsnd := settle_snd cfg (({ live := live₀ } : Alignment).updateAll cfg booting us)
    rw [h, hone.stuck.pass_snd] at hsnd
    exact hsnd.symm
  have hnone := (hone.stuck.settle_eq_ok_iff (hchecked us)).1 (h.trans (by rw [hsame]))
  refine ⟨_, (hother.stuck.settle_eq_ok_iff (hchecked ws)).2 ?_, ?_⟩
  · exact hone.parkedAt_of_perm hother hperm hforward hnone
  · rw [← hsame]
    exact (hone.values_eq_of_perm hother hperm hforward).symm

end Alignment

end ManagedModel
