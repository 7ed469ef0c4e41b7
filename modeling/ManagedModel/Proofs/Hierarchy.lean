import Mathlib.Data.List.Induction
import ManagedModel.Model.Seed
import ManagedModel.Proofs.Course.Footprint

/-! # The hierarchy

    The resources of a tree form a hierarchy: the root is there, and so is the
    parent of every resource.

    * The subtree of an address is a range in the order of addresses
      (`Address.isUnder_of_between`), so that reading the entries from the
      address on finds all of its children (`Tree.mem_children_iff`).
    * `Tree.Hierarchical` is kept by every change through a working copy, and
      every seed has it (`Tree.hierarchical_of_ofSeed`).
    * What is done within a scope is decided by the resources near the scope
      (`Tree.AlikeNear`): those that lie above or below one of its tops. -/

namespace ManagedModel

/-! ### Addresses of a subtree -/

namespace Address

variable {a b c top : Address}

theorem isUnder_iff : a.isUnder top = true ↔ top.elements <+: a.elements :=
  List.isPrefixOf_iff_prefix

theorem overlaps_iff : a.overlaps b = true ↔ a.isUnder b = true ∨ b.isUnder a = true :=
  Bool.or_eq_true_iff

theorem overlaps_comm (a b : Address) : a.overlaps b = b.overlaps a :=
  Bool.or_comm _ _

theorem isUnder_refl (a : Address) : a.isUnder a = true :=
  isUnder_iff.2 List.prefix_rfl

theorem isUnder_trans (h₁ : a.isUnder b = true) (h₂ : b.isUnder c = true) : a.isUnder c = true :=
  isUnder_iff.2 ((isUnder_iff.1 h₂).trans (isUnder_iff.1 h₁))

/-- Of two addresses above a third, one is above the other. -/
theorem overlaps_of_isUnder (hb : a.isUnder b = true) (hc : a.isUnder c = true) :
    b.overlaps c = true := by
  rw [overlaps_iff, isUnder_iff, isUnder_iff]
  exact List.prefix_or_prefix_of_prefix (isUnder_iff.1 hc) (isUnder_iff.1 hb)

/-- What lies one element below an address is that address with one more element. -/
theorem eq_child_of_isUnder (hunder : a.isUnder b = true) (hlength : a.length = b.length + 1) :
    ∃ e, a = b.child e := by
  obtain ⟨suffix, hsuffix⟩ := isUnder_iff.1 hunder
  unfold length at hlength
  rw [← hsuffix, List.length_append] at hlength
  obtain ⟨e, rfl⟩ := List.length_eq_one_iff.1 (show suffix.length = 1 by omega)
  obtain ⟨elements⟩ := a
  exact ⟨e, congrArg mk hsuffix.symm⟩

theorem parent?_child (a : Address) (e : AddressElement) : (a.child e).parent? = some a := by
  unfold parent? isRoot child
  simp

theorem parent?_eq_some {p : Address} (h : a.parent? = some p) :
    a.isUnder p = true ∧ a.length = p.length + 1 := by
  unfold parent? at h
  split at h
  · cases h
  · rename_i hroot
    cases h
    have hne : a.elements ≠ [] := fun e => hroot (by rw [isRoot, e]; rfl)
    refine ⟨isUnder_iff.2 (List.dropLast_prefix _), ?_⟩
    have := List.length_pos_iff.2 hne
    unfold length
    rw [List.length_dropLast]
    omega

/-- The parent is what lies one element above. -/
theorem parent?_eq_some_iff {p : Address} :
    a.parent? = some p ↔ a.isUnder p = true ∧ a.length = p.length + 1 := by
  constructor
  · exact parent?_eq_some
  · rintro ⟨hunder, hlength⟩
    obtain ⟨e, rfl⟩ := eq_child_of_isUnder hunder hlength
    exact parent?_child p e

theorem not_lt_of_prefix {es fs : List AddressElement} (h : es <+: fs) : compare fs es ≠ .lt := by
  induction es generalizing fs with
  | nil => cases fs <;> simp
  | cons e es ih =>
    obtain ⟨gs, rfl⟩ := h
    simpa [Std.ReflCmp.compare_self] using ih (List.prefix_append es gs)

/-- Nothing in a subtree comes before its top. -/
theorem not_lt_of_isUnder (h : a.isUnder top = true) : compare a top ≠ .lt :=
  not_lt_of_prefix (isUnder_iff.1 h)

theorem prefix_of_between {es fs gs : List AddressElement} (h : es <+: gs)
    (hlow : compare fs es ≠ .lt) (hhigh : compare fs gs = .lt) : es <+: fs := by
  induction es generalizing fs gs with
  | nil => exact List.nil_prefix
  | cons e es ih =>
    obtain ⟨gs, rfl⟩ := h
    cases fs with
    | nil => exact absurd (by simp) hlow
    | cons f fs =>
      simp only [List.cons_append, List.compare_cons_cons] at hlow hhigh
      -- one bound excludes a lesser first element, and the other a greater one
      cases hfe : compare f e with
      | lt =>
        rw [hfe] at hlow
        exact absurd rfl hlow
      | gt =>
        rw [hfe] at hhigh
        cases hhigh
      | eq =>
        obtain rfl := Std.LawfulEqCmp.eq_of_compare hfe
        rw [hfe] at hlow hhigh
        exact List.cons_prefix_cons.2 ⟨rfl, ih (List.prefix_append es gs) hlow hhigh⟩

/-- A subtree is a range in the order of addresses. -/
theorem isUnder_of_between (hb : b.isUnder top = true) (hlow : compare a top ≠ .lt)
    (hhigh : compare a b = .lt) : a.isUnder top = true :=
  isUnder_iff.2 (prefix_of_between (isUnder_iff.1 hb) hlow hhigh)

end Address

/-! ### Children -/

namespace Tree

theorem mem_takeWhile_isUnder {a b : Address} {ks : List Address}
    (hks : ks.Pairwise fun k l => compare k l = .lt) (hlow : ∀ k ∈ ks, compare k a ≠ .lt) :
    b ∈ ks.takeWhile (·.isUnder a) ↔ b ∈ ks ∧ b.isUnder a = true := by
  induction ks with
  | nil => simp
  | cons k ks ih =>
    obtain ⟨hk, hks⟩ := List.pairwise_cons.1 hks
    obtain ⟨hlowk, hlow⟩ := List.forall_mem_cons.1 hlow
    by_cases hunder : k.isUnder a = true
    · rw [List.takeWhile_cons, if_pos hunder, List.mem_cons, List.mem_cons, ih hks hlow]
      constructor
      · rintro (rfl | ⟨hmem, hb⟩)
        · exact ⟨.inl rfl, hunder⟩
        · exact ⟨.inr hmem, hb⟩
      · rintro ⟨rfl | hmem, hb⟩
        · exact .inl rfl
        · exact .inr ⟨hmem, hb⟩
    · -- the range has ended, so nothing of it comes later
      rw [List.takeWhile_cons, if_neg hunder]
      refine ⟨fun h => absurd h List.not_mem_nil, ?_⟩
      rintro ⟨hmem, hb⟩
      rcases List.mem_cons.1 hmem with rfl | hmem
      · exact absurd hb hunder
      · exact absurd (Address.isUnder_of_between hb hlowk (hk b hmem)) hunder

theorem mem_range_iff {a b : Address} {ks : List Address}
    (hks : ks.Pairwise fun k l => compare k l = .lt) :
    b ∈ (ks.dropWhile fun k => compare k a == .lt).takeWhile (·.isUnder a) ↔
      b ∈ ks ∧ b.isUnder a = true := by
  induction ks with
  | nil => simp
  | cons k ks ih =>
    obtain ⟨hk, hks'⟩ := List.pairwise_cons.1 hks
    by_cases hlt : compare k a = .lt
    · rw [List.dropWhile_cons_of_pos (by simp [hlt]), ih hks', List.mem_cons]
      refine ⟨fun h => ⟨.inr h.1, h.2⟩, ?_⟩
      rintro ⟨rfl | hmem, hb⟩
      · exact absurd hlt (Address.not_lt_of_isUnder hb)
      · exact ⟨hmem, hb⟩
    · rw [List.dropWhile_cons_of_neg (by simp [hlt])]
      refine mem_takeWhile_isUnder hks fun l hl => ?_
      rcases List.mem_cons.1 hl with rfl | hl
      · exact hlt
      · exact fun h => hlt (Std.TransCmp.lt_trans (hk l hl) h)

/-- The children of an address are all resources one element below it. -/
theorem mem_children_iff {t : Tree} {a b : Address} :
    b ∈ t.children a ↔
      t.contains b = true ∧ b.isUnder a = true ∧ b.length = a.length + 1 := by
  unfold children
  rw [List.mem_filter, mem_range_iff (SortedMap.keys_ascending _), SortedMap.mem_keys_iff,
    beq_iff_eq, and_assoc]
  rfl

theorem eq_child_of_mem_children {t : Tree} {a b : Address} (h : b ∈ t.children a) :
    ∃ e, b = a.child e ∧ t.contains (a.child e) = true := by
  obtain ⟨hthere, hunder, hlength⟩ := mem_children_iff.1 h
  obtain ⟨e, rfl⟩ := Address.eq_child_of_isUnder hunder hlength
  exact ⟨e, rfl, hthere⟩

theorem child_mem_children {t : Tree} {a : Address} {e : AddressElement}
    (h : t.contains (a.child e) = true) : a.child e ∈ t.children a := by
  refine mem_children_iff.2 ⟨h, Address.isUnder_iff.2 (List.prefix_append _ _), ?_⟩
  exact List.length_append

/-! ### Hierarchies -/

/-- The root is there, and so is the parent of every resource. -/
structure Hierarchical (t : Tree) : Prop where
  root : t.contains .root = true
  parent : ∀ {a p : Address}, t.contains a = true → a.parent? = some p → t.contains p = true

/-- What lies above a resource of a hierarchy is a resource. -/
theorem Hierarchical.contains_of_append {t : Tree} (ht : t.Hierarchical) {a : Address}
    {path : List AddressElement} (h : t.contains ⟨a.elements ++ path⟩ = true) :
    t.contains a = true := by
  induction path using List.reverseRecOn with
  | nil =>
    rw [List.append_nil] at h
    exact h
  | append_singleton path e ih =>
    refine ih (ht.parent h ?_)
    rw [← List.append_assoc]
    exact Address.parent?_child ⟨a.elements ++ path⟩ e

theorem hierarchical_initial : initial.Hierarchical where
  root := rfl
  parent := by
    intro a p ha hp
    -- nothing but the root is there, and the root has no parent
    have hroot : a = .root := by
      refine Decidable.byContradiction fun hne => ?_
      have hget : initial.get? a = none :=
        SortedMap.get?_insert_of_ne (∅ : SortedMap Address Attributes) hne ∅
      rw [contains_eq, hget] at ha
      cases ha
    rw [hroot] at hp
    cases hp

section

variable {t t' : Tree} {a : Address}

theorem contains_put_iff {b : Address} {attributes : Attributes} :
    (t.put a attributes).contains b = true ↔ b = a ∨ t.contains b = true := by
  by_cases h : b = a
  · subst h
    simp [contains_put_self]
  · simp [contains_put_of_ne t h, h]

theorem contains_discard_iff {b : Address} :
    (t.discard a).contains b = true ↔ b ≠ a ∧ t.contains b = true := by
  by_cases h : b = a
  · subst h
    simp [contains_eq]
  · rw [contains_congr (t.get?_discard_of_ne h)]
    simp [h]

/-- A resource may be put where one is or below one. -/
theorem Hierarchical.put (ht : t.Hierarchical) {attributes : Attributes}
    (ha : ∀ p, a.parent? = some p → t.contains p = true) : (t.put a attributes).Hierarchical where
  root := contains_put_iff.2 (.inr ht.root)
  parent := by
    intro b p hb hp
    refine contains_put_iff.2 (.inr ?_)
    rcases contains_put_iff.1 hb with rfl | hb
    · exact ha p hp
    · exact ht.parent hb hp

theorem Hierarchical.create (ht : t.Hierarchical) (h : t.create a = .ok t') : t'.Hierarchical := by
  obtain ⟨-, rfl⟩ := create_eq_ok h
  refine ht.put fun p hp => ?_
  unfold Tree.create at h
  rw [hp] at h
  split at h
  · cases h
  · dsimp only at h
    split at h
    · assumption
    · cases h

theorem Hierarchical.put_self (ht : t.Hierarchical) {old : Attributes} (h : t.get? a = some old)
    (attributes : Attributes) : (t.put a attributes).Hierarchical :=
  ht.put fun _ hp => ht.parent (by rw [contains_eq, h]; rfl) hp

theorem Hierarchical.edit (ht : t.Hierarchical) {f : Attributes → Attributes}
    (h : t.edit a f = .ok t') : t'.Hierarchical := by
  obtain ⟨old, hold, h⟩ := bind_eq_ok.1 h
  cases h
  exact ht.put_self (require_eq_ok.1 hold) _

theorem Hierarchical.remove (ht : t.Hierarchical) {attributes : Attributes}
    (h : t.remove a = .ok (attributes, t')) : t'.Hierarchical := by
  obtain ⟨-, rfl⟩ := remove_eq_ok h
  unfold Tree.remove at h
  split at h
  · cases h
  · rename_i hroot
    split at h
    · cases h
    · split at h
      · rename_i hleaf
        refine ⟨contains_discard_iff.2 ⟨?_, ht.root⟩, fun {b p} hb hp => ?_⟩
        · rintro rfl
          exact hroot rfl
        · have hthere := (contains_discard_iff.1 hb).2
          refine contains_discard_iff.2 ⟨?_, ht.parent hthere hp⟩
          -- a resource below the one that goes would have been its child
          rintro rfl
          have hmem : b ∈ t.children p := mem_children_iff.2 ⟨hthere, Address.parent?_eq_some hp⟩
          rw [List.isEmpty_iff.1 hleaf] at hmem
          cases hmem
      · cases h

theorem Hierarchical.plant (ht : t.Hierarchical) {attributes : Attributes}
    (h : t.plant a attributes = .ok t') : t'.Hierarchical := by
  unfold Tree.plant at h
  split at h
  · exact ht.edit h
  · obtain ⟨t₁, hcreate, hedit⟩ := bind_eq_ok.1 h
    exact (ht.create hcreate).edit hedit

theorem Hierarchical.plantAll {entries : List (Address × Attributes)} (ht : t.Hierarchical)
    (h : t.plantAll entries = .ok t') : t'.Hierarchical := by
  induction entries generalizing t with
  | nil =>
    cases h
    exact ht
  | cons entry entries ih =>
    obtain ⟨t₁, hplant, hrest⟩ := bind_eq_ok.1 (show (t.plant _ _ >>= _) = _ from h)
    exact ih (ht.plant hplant) hrest

/-- Every seed is a hierarchy. -/
theorem hierarchical_of_ofSeed {entries : List (Address × Attributes)}
    (h : ofSeed entries = .ok t) : t.Hierarchical :=
  hierarchical_initial.plantAll h

end

end Tree

/-! ### Neighbourhoods -/

/-- The address lies above or below one of the tops. -/
def Address.IsNear (a : Address) (scope : List Address) : Prop :=
  ∃ top ∈ scope, a.overlaps top = true

namespace Address

variable {a b : Address} {scope scope' : List Address}

theorem liesIn_iff : a.LiesIn scope ↔ ∃ top ∈ scope, a.isUnder top = true :=
  List.any_eq_true

theorem LiesIn.isNear_above (ha : a.LiesIn scope) (h : a.isUnder b = true) : b.IsNear scope := by
  obtain ⟨top, htop, hunder⟩ := liesIn_iff.1 ha
  exact ⟨top, htop, overlaps_of_isUnder h hunder⟩

theorem LiesIn.isNear_below (ha : a.LiesIn scope) (h : b.isUnder a = true) : b.IsNear scope := by
  obtain ⟨top, htop, hunder⟩ := liesIn_iff.1 ha
  exact ⟨top, htop, overlaps_iff.2 (.inl (isUnder_trans h hunder))⟩

theorem LiesIn.isNear (ha : a.LiesIn scope) : a.IsNear scope :=
  ha.isNear_above (isUnder_refl a)

/-- What lies in one scope is not near another that does not overlap it. -/
theorem LiesIn.not_isNear (ha : a.LiesIn scope)
    (h : ∀ top ∈ scope, ∀ top' ∈ scope', top.overlaps top' = false) : ¬ a.IsNear scope' := by
  rintro ⟨top', htop', hnear⟩
  obtain ⟨top, htop, hunder⟩ := liesIn_iff.1 ha
  suffices hoverlap : top.overlaps top' = true by
    rw [h top htop top' htop'] at hoverlap
    cases hoverlap
  rcases overlaps_iff.1 hnear with hbelow | habove
  · exact overlaps_of_isUnder hunder hbelow
  · exact overlaps_iff.2 (.inr (isUnder_trans habove hunder))

end Address

namespace Tree

/-- Near the scope the second tree has what the first has. -/
def AlikeNear (scope : List Address) (t u : Tree) : Prop :=
  ∀ a, a.IsNear scope → u.get? a = t.get? a

section

variable {scope : List Address} {t u : Tree} {a : Address}

theorem AlikeNear.refl (scope : List Address) (t : Tree) : t.AlikeNear scope t :=
  fun _ _ => rfl

theorem AlikeNear.contains_eq (h : t.AlikeNear scope u) (ha : a.IsNear scope) :
    u.contains a = t.contains a :=
  contains_congr (h a ha)

theorem AlikeNear.require_eq (h : t.AlikeNear scope u) (ha : a.IsNear scope) :
    u.require a = t.require a := by
  unfold require
  rw [h a ha]

theorem AlikeNear.create_map (h : t.AlikeNear scope u) (ha : a.LiesIn scope) {α : Type} (x : α) :
    (u.create a).map (fun _ => x) = (t.create a).map (fun _ => x) := by
  unfold create
  rw [h.contains_eq ha.isNear]
  by_cases hthere : t.contains a = true
  · rw [if_pos hthere, if_pos hthere]
  · rw [if_neg hthere, if_neg hthere]
    cases hparent : a.parent? with
    | none => rfl
    | some p =>
      dsimp only
      rw [h.contains_eq (ha.isNear_above (Address.parent?_eq_some hparent).1)]
      by_cases hp : t.contains p = true
      · rw [if_pos hp, if_pos hp]
        rfl
      · rw [if_neg hp, if_neg hp]

theorem AlikeNear.isEmpty_children (h : t.AlikeNear scope u) (ha : a.LiesIn scope) :
    (u.children a).isEmpty = (t.children a).isEmpty := by
  rw [Bool.eq_iff_iff, List.isEmpty_iff, List.isEmpty_iff, List.eq_nil_iff_forall_not_mem,
    List.eq_nil_iff_forall_not_mem]
  refine forall_congr' fun b => not_congr ?_
  rw [mem_children_iff, mem_children_iff]
  refine and_congr_left fun hb => ?_
  rw [h.contains_eq (ha.isNear_below hb.1)]

theorem AlikeNear.remove_map (h : t.AlikeNear scope u) (ha : a.LiesIn scope) {α : Type}
    (f : Attributes → α) :
    (u.remove a).map (fun r => f r.1) = (t.remove a).map (fun r => f r.1) := by
  unfold remove
  by_cases hroot : a.isRoot = true
  · rw [if_pos hroot, if_pos hroot]
  · rw [if_neg hroot, if_neg hroot, h a ha.isNear]
    cases t.get? a with
    | none => rfl
    | some attributes =>
      dsimp only
      rw [h.isEmpty_children ha]
      by_cases hleaf : (t.children a).isEmpty = true
      · rw [if_pos hleaf, if_pos hleaf]
        rfl
      · rw [if_neg hleaf, if_neg hleaf]

end

end Tree

end ManagedModel
