/-! # Sorted maps

    A finite map whose entries are kept in strictly ascending key order, so
    that two maps with the same entries are equal and every listing of a map
    comes out in key order.

    * `Entries` holds the operations on the bare entry list; they are total on
      every list and keep the order of an ascending one.
    * `SortedMap` packs an entry list with its order.
    * `SortedSet` is the map to `Unit`.

    The laws of the operations are in `ManagedModel.SortedMap.Lemmas`. -/

namespace ManagedModel

/-! ### Entry lists -/

namespace Entries

variable {κ ν : Type} [Ord κ]

/-- The keys strictly ascend. -/
def Ascending (es : List (κ × ν)) : Prop :=
  es.Pairwise fun a b => compare a.1 b.1 = .lt

instance : DecidablePred (Ascending (κ := κ) (ν := ν)) := fun es =>
  inferInstanceAs (Decidable (es.Pairwise fun a b => compare a.1 b.1 = .lt))

/-- The value stored under `k`. -/
def get? (k : κ) : List (κ × ν) → Option ν
  | [] => none
  | (k', v) :: es => if compare k k' = .eq then some v else get? k es

/-- Stores `v` under `k`, in place of what was there. -/
def insert (k : κ) (v : ν) : List (κ × ν) → List (κ × ν)
  | [] => [(k, v)]
  | (k', v') :: es =>
    match compare k k' with
    | .lt => (k, v) :: (k', v') :: es
    | .eq => (k, v) :: es
    | .gt => (k', v') :: insert k v es

/-- Drops the entry of `k`. -/
def erase (k : κ) : List (κ × ν) → List (κ × ν)
  | [] => []
  | (k', v') :: es => if compare k k' = .eq then es else (k', v') :: erase k es

theorem mem_insert {k : κ} {v : ν} {e : κ × ν} :
    ∀ {es : List (κ × ν)}, e ∈ insert k v es → e = (k, v) ∨ e ∈ es
  | [], h => by simpa [insert] using h
  | (k', v') :: es, h => by
    unfold insert at h
    split at h
    · simpa using h
    · rcases List.mem_cons.1 h with h | h
      · exact .inl h
      · exact .inr (List.mem_cons_of_mem _ h)
    · rcases List.mem_cons.1 h with h | h
      · exact .inr (h ▸ List.mem_cons_self)
      · rcases mem_insert h with h | h
        · exact .inl h
        · exact .inr (List.mem_cons_of_mem _ h)

theorem erase_sublist (k : κ) : ∀ es : List (κ × ν), (erase k es).Sublist es
  | [] => List.Sublist.refl _
  | (k', v') :: es => by
    unfold erase
    split
    · exact List.sublist_cons_self _ _
    · exact (erase_sublist k es).cons_cons _

theorem Ascending.erase {es : List (κ × ν)} (h : Ascending es) (k : κ) :
    Ascending (Entries.erase k es) :=
  List.Pairwise.sublist (erase_sublist k es) h

theorem Ascending.insert [Std.TransOrd κ] :
    ∀ {es : List (κ × ν)}, Ascending es → ∀ (k : κ) (v : ν), Ascending (Entries.insert k v es)
  | [], _, k, v => by simp [Entries.insert, Ascending]
  | (k', v') :: es, h, k, v => by
    have hd := (List.pairwise_cons.1 h).1
    have tl : Ascending es := (List.pairwise_cons.1 h).2
    unfold Entries.insert
    split
    · rename_i hk
      refine List.pairwise_cons.2 ⟨fun e he => ?_, h⟩
      rcases List.mem_cons.1 he with rfl | he
      · exact hk
      · exact Std.TransCmp.lt_trans hk (hd e he)
    · rename_i hk
      refine List.pairwise_cons.2 ⟨fun e he => ?_, tl⟩
      exact Std.TransCmp.lt_of_eq_of_lt hk (hd e he)
    · rename_i hk
      refine List.pairwise_cons.2 ⟨fun e he => ?_, Ascending.insert tl k v⟩
      rcases mem_insert he with rfl | he
      · exact Std.OrientedCmp.lt_of_gt hk
      · exact hd e he

end Entries

/-! ### The map -/

/-- A finite map with entries in strictly ascending key order. -/
structure SortedMap (κ ν : Type) [Ord κ] where
  /-- The entries, in key order. -/
  entries : List (κ × ν)
  /-- The keys strictly ascend. -/
  ascending : Entries.Ascending entries

namespace SortedMap

variable {κ ν : Type} [Ord κ]

instance [DecidableEq κ] [DecidableEq ν] : DecidableEq (SortedMap κ ν) := fun m n =>
  if h : m.entries = n.entries then
    isTrue (by cases m; cases n; cases h; rfl)
  else
    isFalse (fun e => h (e ▸ rfl))

/-- The map without entries. -/
def empty : SortedMap κ ν := ⟨[], List.Pairwise.nil⟩

instance : EmptyCollection (SortedMap κ ν) := ⟨empty⟩

instance : Inhabited (SortedMap κ ν) := ⟨empty⟩

/-- The value stored under `k`. -/
def get? (m : SortedMap κ ν) (k : κ) : Option ν := Entries.get? k m.entries

/-- Whether something is stored under `k`. -/
def contains (m : SortedMap κ ν) (k : κ) : Bool := (m.get? k).isSome

/-- Stores `v` under `k`, in place of what was there. -/
def insert [Std.TransOrd κ] (m : SortedMap κ ν) (k : κ) (v : ν) : SortedMap κ ν :=
  ⟨Entries.insert k v m.entries, m.ascending.insert k v⟩

/-- Drops the entry of `k`. -/
def erase (m : SortedMap κ ν) (k : κ) : SortedMap κ ν :=
  ⟨Entries.erase k m.entries, m.ascending.erase k⟩

/-- The keys, ascending. -/
def keys (m : SortedMap κ ν) : List κ := m.entries.map (·.1)

/-- The number of entries. -/
def size (m : SortedMap κ ν) : Nat := m.entries.length

/-- Whether there is no entry. -/
def isEmpty (m : SortedMap κ ν) : Bool := m.entries.isEmpty

/-- The map of a list of entries; of two entries with one key the later counts. -/
def ofList [Std.TransOrd κ] (es : List (κ × ν)) : SortedMap κ ν :=
  es.foldl (fun m e => m.insert e.1 e.2) empty

end SortedMap

/-! ### The set -/

/-- A finite set listed in strictly ascending order. -/
abbrev SortedSet (κ : Type) [Ord κ] := SortedMap κ Unit

namespace SortedSet

variable {κ : Type} [Ord κ]

/-- Adds `k`. -/
def add [Std.TransOrd κ] (s : SortedSet κ) (k : κ) : SortedSet κ := SortedMap.insert s k ()

/-- The set of a list's members. -/
def ofList [Std.TransOrd κ] (ks : List κ) : SortedSet κ := ks.foldl add SortedMap.empty

/-- The members, ascending. -/
def toList (s : SortedSet κ) : List κ := s.keys

end SortedSet

end ManagedModel
