import ManagedModel.SortedMap

/-! # Laws of sorted maps

    `get?` is the view of a map: `ext_get?` says that two maps with the same
    view are equal, and each operation has one equation for the view of its
    result. `mem_entries_iff` and `keys_ascending` describe the listing; what
    ascends is listed once (`nodup_of_ascending`). -/

namespace ManagedModel

/-! ### Ascending lists -/

section

variable {κ : Type} [Ord κ] [Std.ReflOrd κ]

theorem ne_of_compare_eq_lt {k l : κ} (h : compare k l = .lt) : k ≠ l := by
  rintro rfl
  simp [Std.ReflCmp.compare_self] at h

theorem nodup_of_ascending {ks : List κ} (h : ks.Pairwise fun k l => compare k l = .lt) :
    ks.Nodup :=
  h.imp ne_of_compare_eq_lt

end

namespace Entries

variable {κ ν : Type} [Ord κ]

theorem get?_eq_none_of_lt {k : κ} :
    ∀ {es : List (κ × ν)}, (∀ e ∈ es, compare k e.1 = .lt) → get? k es = none
  | [], _ => rfl
  | (k', v) :: es, h => by
    have hk := h (k', v) List.mem_cons_self
    have : compare k k' ≠ .eq := by simp [hk]
    rw [get?, if_neg this]
    exact get?_eq_none_of_lt fun e he => h e (List.mem_cons_of_mem _ he)

theorem length_erase {k : κ} :
    ∀ {es : List (κ × ν)}, (get? k es).isSome → (erase k es).length + 1 = es.length
  | [], h => by simp [get?] at h
  | (k', v') :: es, h => by
    unfold get? at h
    unfold erase
    split at h
    · rename_i hk
      simp [hk]
    · rename_i hk
      rw [if_neg hk]
      simp [length_erase h]

section Order

variable [Std.TransOrd κ]

theorem get?_insert_self (k : κ) (v : ν) :
    ∀ es : List (κ × ν), get? k (insert k v es) = some v
  | [] => by simp [insert, get?, Std.ReflCmp.compare_self]
  | (k', v') :: es => by
    unfold insert
    split
    · simp [get?, Std.ReflCmp.compare_self]
    · simp [get?, Std.ReflCmp.compare_self]
    · rename_i h
      simp [get?, h, get?_insert_self k v es]

theorem get?_insert_of_ne {k l : κ} (h : compare l k ≠ .eq) (v : ν) :
    ∀ es : List (κ × ν), get? l (insert k v es) = get? l es
  | [] => by simp [insert, get?, h]
  | (k', v') :: es => by
    unfold insert
    split
    · simp [get?, h]
    · rename_i hk
      have : compare l k' ≠ .eq := by
        rw [← Std.TransCmp.congr_right hk]; exact h
      simp [get?, h, this]
    · simp only [get?, get?_insert_of_ne h v es]

theorem get?_erase_self (k : κ) :
    ∀ {es : List (κ × ν)}, Ascending es → get? k (erase k es) = none
  | [], _ => rfl
  | (k', v') :: es, h => by
    have hd := (List.pairwise_cons.1 h).1
    have tl : Ascending es := (List.pairwise_cons.1 h).2
    unfold erase
    split
    · rename_i hk
      exact get?_eq_none_of_lt fun e he => Std.TransCmp.lt_of_eq_of_lt hk (hd e he)
    · rename_i hk
      rw [get?, if_neg hk]
      exact get?_erase_self k tl

theorem get?_erase_of_ne {k l : κ} (h : compare l k ≠ .eq) :
    ∀ es : List (κ × ν), get? l (erase k es) = get? l es
  | [] => rfl
  | (k', v') :: es => by
    unfold erase
    split
    · rename_i hk
      have : compare l k' ≠ .eq := by
        rw [← Std.TransCmp.congr_right hk]; exact h
      rw [get?, if_neg this]
    · simp only [get?, get?_erase_of_ne h es]

end Order

section Lawful

variable [Std.LawfulEqOrd κ]

theorem get?_eq_some_iff {k : κ} {v : ν} :
    ∀ {es : List (κ × ν)}, Ascending es → (get? k es = some v ↔ (k, v) ∈ es)
  | [], _ => by simp [get?]
  | (k', v') :: es, h => by
    have hd := (List.pairwise_cons.1 h).1
    have tl : Ascending es := (List.pairwise_cons.1 h).2
    unfold get?
    split
    · rename_i hk
      obtain rfl := Std.LawfulEqCmp.eq_of_compare hk
      constructor
      · intro hv
        cases hv
        exact List.mem_cons_self
      · intro hm
        rcases List.mem_cons.1 hm with hm | hm
        · cases hm; rfl
        · have := hd _ hm
          simp [Std.ReflCmp.compare_self] at this
    · rename_i hk
      rw [get?_eq_some_iff tl, List.mem_cons]
      constructor
      · exact .inr
      · rintro (hm | hm)
        · cases hm
          exact absurd Std.ReflCmp.compare_self hk
        · exact hm

variable [Std.TransOrd κ]

theorem ext_get? {es fs : List (κ × ν)} (he : Ascending es) (hf : Ascending fs)
    (h : ∀ k, get? k es = get? k fs) : es = fs := by
  induction es generalizing fs with
  | nil =>
    cases fs with
    | nil => rfl
    | cons f fs =>
      have := h f.1
      simp [get?, Std.ReflCmp.compare_self] at this
  | cons e es ih =>
    cases fs with
    | nil =>
      have := h e.1
      simp [get?, Std.ReflCmp.compare_self] at this
    | cons f fs =>
      obtain ⟨k, v⟩ := e
      obtain ⟨l, w⟩ := f
      have hde := (List.pairwise_cons.1 he).1
      have hdf := (List.pairwise_cons.1 hf).1
      have hk : k = l := by
        cases hkl : compare k l with
        | eq => exact Std.LawfulEqCmp.eq_of_compare hkl
        | lt =>
          have hn : get? k ((l, w) :: fs) = none := by
            refine get?_eq_none_of_lt fun e he => ?_
            rcases List.mem_cons.1 he with rfl | he
            · exact hkl
            · exact Std.TransCmp.lt_trans hkl (hdf e he)
          rw [← h k] at hn
          simp [get?, Std.ReflCmp.compare_self] at hn
        | gt =>
          have hlk : compare l k = .lt := Std.OrientedCmp.lt_of_gt hkl
          have hn : get? l ((k, v) :: es) = none := by
            refine get?_eq_none_of_lt fun e he => ?_
            rcases List.mem_cons.1 he with rfl | he
            · exact hlk
            · exact Std.TransCmp.lt_trans hlk (hde e he)
          rw [h l] at hn
          simp [get?, Std.ReflCmp.compare_self] at hn
      subst hk
      have hv := h k
      simp only [get?, Std.ReflCmp.compare_self, if_true, Option.some.injEq] at hv
      subst hv
      rw [ih (List.pairwise_cons.1 he).2 (List.pairwise_cons.1 hf).2]
      intro k'
      by_cases hk' : compare k' k = .eq
      · obtain rfl := Std.LawfulEqCmp.eq_of_compare hk'
        rw [get?_eq_none_of_lt hde, get?_eq_none_of_lt hdf]
      · have := h k'
        simpa only [get?, if_neg hk'] using this

end Lawful

end Entries

namespace SortedMap

variable {κ ν : Type} [Ord κ]

theorem contains_eq_isSome (m : SortedMap κ ν) (k : κ) : m.contains k = (m.get? k).isSome := rfl

theorem size_erase {m : SortedMap κ ν} {k : κ} (h : (m.get? k).isSome) :
    (m.erase k).size + 1 = m.size :=
  Entries.length_erase h

theorem compare_ne_eq [Std.LawfulEqOrd κ] {k l : κ} (h : l ≠ k) : compare l k ≠ .eq :=
  fun e => h (Std.LawfulEqCmp.eq_of_compare e)

variable [Std.TransOrd κ]

@[simp] theorem get?_insert_self (m : SortedMap κ ν) (k : κ) (v : ν) :
    (m.insert k v).get? k = some v :=
  Entries.get?_insert_self k v m.entries

@[simp] theorem get?_erase_self (m : SortedMap κ ν) (k : κ) : (m.erase k).get? k = none :=
  Entries.get?_erase_self k m.ascending

variable [Std.LawfulEqOrd κ]

theorem get?_insert_of_ne (m : SortedMap κ ν) {k l : κ} (h : l ≠ k) (v : ν) :
    (m.insert k v).get? l = m.get? l :=
  Entries.get?_insert_of_ne (compare_ne_eq h) v m.entries

theorem get?_erase_of_ne (m : SortedMap κ ν) {k l : κ} (h : l ≠ k) :
    (m.erase k).get? l = m.get? l :=
  Entries.get?_erase_of_ne (compare_ne_eq h) m.entries

theorem get?_insert [DecidableEq κ] (m : SortedMap κ ν) (k l : κ) (v : ν) :
    (m.insert k v).get? l = if l = k then some v else m.get? l := by
  split
  · rename_i h; subst h; exact get?_insert_self m l v
  · rename_i h; exact get?_insert_of_ne m h v

/-- What holds for all values of a map, and for one more, holds for all once that one is in. -/
theorem forall_insert [DecidableEq κ] {P : ν → Prop} {m : SortedMap κ ν} {k : κ} {v : ν}
    (hm : ∀ l w, m.get? l = some w → P w) (hv : P v) :
    ∀ l w, (m.insert k v).get? l = some w → P w := by
  intro l w hw
  rw [get?_insert] at hw
  split at hw
  · cases hw
    exact hv
  · exact hm l w hw

theorem get?_erase [DecidableEq κ] (m : SortedMap κ ν) (k l : κ) :
    (m.erase k).get? l = if l = k then none else m.get? l := by
  split
  · rename_i h; subst h; exact get?_erase_self m l
  · rename_i h; exact get?_erase_of_ne m h

/-- A map is determined by its view. -/
theorem ext_get? {m n : SortedMap κ ν} (h : ∀ k, m.get? k = n.get? k) : m = n := by
  obtain ⟨es, he⟩ := m
  obtain ⟨fs, hf⟩ := n
  obtain rfl : es = fs := Entries.ext_get? he hf h
  rfl

theorem erase_eq_self {m : SortedMap κ ν} {k : κ} (h : m.get? k = none) : m.erase k = m := by
  classical
  apply ext_get?
  intro l
  rw [get?_erase]
  split
  · rename_i hl
    rw [hl, h]
  · rfl

omit [Std.TransOrd κ] in
theorem mem_entries_iff {m : SortedMap κ ν} {k : κ} {v : ν} :
    (k, v) ∈ m.entries ↔ m.get? k = some v :=
  (Entries.get?_eq_some_iff m.ascending).symm

omit [Std.TransOrd κ] in
theorem mem_keys_iff {m : SortedMap κ ν} {k : κ} : k ∈ m.keys ↔ (m.get? k).isSome := by
  simp only [keys, List.mem_map, Option.isSome_iff_exists]
  constructor
  · rintro ⟨⟨k', v⟩, hm, rfl⟩
    exact ⟨v, mem_entries_iff.1 hm⟩
  · rintro ⟨v, hv⟩
    exact ⟨(k, v), mem_entries_iff.2 hv, rfl⟩

omit [Std.TransOrd κ] in
theorem isEmpty_eq_false_iff {m : SortedMap κ ν} :
    m.isEmpty = false ↔ ∃ k, m.contains k = true := by
  simp only [contains_eq_isSome, ← mem_keys_iff]
  simp only [isEmpty, keys, List.isEmpty_eq_false_iff_exists_mem, List.mem_map]
  constructor
  · rintro ⟨e, he⟩
    exact ⟨e.1, e, he, rfl⟩
  · rintro ⟨_, e, he, _⟩
    exact ⟨e, he⟩

omit [Std.TransOrd κ] [Std.LawfulEqOrd κ] in
theorem keys_ascending (m : SortedMap κ ν) : m.keys.Pairwise fun a b => compare a b = .lt :=
  List.pairwise_map.2 m.ascending

end SortedMap

namespace SortedSet

variable {κ : Type} [Ord κ] [Std.TransOrd κ] [Std.LawfulEqOrd κ] [DecidableEq κ]

theorem get?_foldl_add (ks : List κ) (s : SortedSet κ) (k : κ) :
    (ks.foldl add s).get? k = if k ∈ ks then some () else s.get? k := by
  induction ks generalizing s with
  | nil => rfl
  | cons l ks ih =>
    rw [List.foldl_cons, ih]
    unfold add
    rw [SortedMap.get?_insert]
    by_cases hk : k = l
    · simp [hk]
    · simp [hk]

theorem get?_ofList (ks : List κ) (k : κ) :
    (ofList ks).get? k = if k ∈ ks then some () else none :=
  get?_foldl_add ks SortedMap.empty k

theorem mem_toList_ofList {ks : List κ} {k : κ} : k ∈ (ofList ks).toList ↔ k ∈ ks := by
  unfold toList
  rw [SortedMap.mem_keys_iff, get?_ofList]
  by_cases hk : k ∈ ks <;> simp [hk]

/-- The order in which members are listed does not matter. -/
theorem ofList_eq_of_mem_iff {ks ls : List κ} (h : ∀ k, k ∈ ks ↔ k ∈ ls) :
    ofList ks = ofList ls := by
  apply SortedMap.ext_get?
  intro k
  rw [get?_ofList, get?_ofList]
  by_cases hk : k ∈ ks
  · rw [if_pos hk, if_pos ((h k).1 hk)]
  · rw [if_neg hk, if_neg fun hl => hk ((h k).2 hl)]

end SortedSet

end ManagedModel
