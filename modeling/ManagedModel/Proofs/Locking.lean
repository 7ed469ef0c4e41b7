import Mathlib.Data.List.Nodup
import Mathlib.Data.List.Perm.Basic
import ManagedModel.Proofs.Hierarchy
import ManagedModel.Proofs.Submission

/-! # Locking

    A lock table over its whole life: locks are asked for, granted or refused,
    and given back, in any order and with any lists of addresses.

    * `Locking` is a table with the locks that were granted on it and are alive.
      `Locking.Reachable` are the states that calls lead to.
    * The table holds the ranges of the live locks, lock after lock, and nothing
      else (`Kept.held_eq`); so a lock that is given back takes its own ranges
      with it (`Kept.held_perm_drop`).
    * A range is a subtree. Two subtrees share a resource just if the top of one
      lies in the other (`Lock.apart_iff`), which is what is compared before a
      lock is granted. -/

namespace ManagedModel

/-! ### Locks -/

namespace Lock

/-- What the table holds for a lock, address by address. -/
def ranges (l : Lock) : List (Nat × Address) := l.addresses.map fun a => (l.owner, a)

/-- The address lies in a subtree that the lock covers. -/
def Covers (l : Lock) (x : Address) : Prop := ∃ a ∈ l.addresses, x.isUnder a = true

/-- No subtree of one lock overlaps one of the other. -/
def Apart (l m : Lock) : Prop := ∀ a ∈ l.addresses, ∀ b ∈ m.addresses, a.overlaps b = false

/-- Locks are apart just if nothing lies in subtrees of both. -/
theorem apart_iff {l m : Lock} : l.Apart m ↔ ∀ x, ¬ (l.Covers x ∧ m.Covers x) := by
  constructor
  · rintro h x ⟨⟨a, ha, hxa⟩, b, hb, hxb⟩
    have hoverlaps := Address.overlaps_of_isUnder hxa hxb
    rw [h a ha b hb] at hoverlaps
    cases hoverlaps
  · intro h a ha b hb
    refine Bool.eq_false_iff.2 fun hoverlaps => ?_
    -- of two subtrees that overlap, one has the top of the other
    rcases Address.overlaps_iff.1 hoverlaps with hab | hba
    · exact h a ⟨⟨a, ha, a.isUnder_refl⟩, b, hb, hab⟩
    · exact h b ⟨⟨a, ha, hba⟩, b, hb, b.isUnder_refl⟩

theorem mem_ranges {l : Lock} {h : Nat × Address} :
    h ∈ l.ranges ↔ h.1 = l.owner ∧ h.2 ∈ l.addresses := by
  unfold ranges
  rw [List.mem_map]
  constructor
  · rintro ⟨a, ha, rfl⟩
    exact ⟨rfl, ha⟩
  · rintro ⟨howner, ha⟩
    exact ⟨h.2, ha, by rw [← howner]⟩

/-- What is kept of the ranges of a lock when those of an owner are dropped. -/
theorem filter_ranges (l : Lock) (owner : Nat) :
    l.ranges.filter (fun h => h.1 != owner) = if l.owner != owner then l.ranges else [] := by
  split
  · rename_i hne
    refine List.filter_eq_self.2 fun h hh => ?_
    rw [(mem_ranges.1 hh).1]
    exact hne
  · rename_i heq
    refine List.filter_eq_nil_iff.2 fun h hh => ?_
    rw [(mem_ranges.1 hh).1]
    exact heq

end Lock

/-! ### Tables in use -/

/-- A lock table with the locks granted on it that have not been given back. -/
structure Locking where
  locks : HeldLocks := {}
  /-- The live locks, in the order they were granted. -/
  live : List Lock := []

namespace Locking

variable {t t' : Locking} {lock : Lock} {wanted : List Address}

/-- Grants a lock. -/
def grant (t : Locking) (wanted : List Address) : Locking :=
  { locks := (t.locks.grant wanted).2, live := t.live ++ [(t.locks.grant wanted).1] }

/-- Asks for a lock; without one, nothing changes. -/
def tryAcquire (t : Locking) (wanted : List Address) : Option Lock × Locking :=
  match t.locks.acquire? wanted with
  | some (lock, locks) => (some lock, { locks, live := t.live ++ [lock] })
  | none => (none, t)

/-- Gives a lock back. -/
def drop (t : Locking) (lock : Lock) : Locking :=
  { locks := t.locks.release lock.owner, live := t.live.erase lock }

/-- The states of a table that calls lead to. Owners are numbered without a bound, so no number is
    given out again. -/
inductive Reachable : Locking → Prop where
  | start : Reachable {}
  /-- A lock is asked for, and granted or refused. -/
  | tryAcquire {t : Locking} (h : Reachable t) (wanted : List Address) :
      Reachable (t.tryAcquire wanted).2
  /-- A caller that waited for a lock goes on, as nothing is in the way any more. -/
  | acquire {t : Locking} {wanted : List Address} (h : Reachable t)
      (hfree : t.locks.conflicts wanted = false) : Reachable (t.grant wanted)
  /-- A live lock is given back. -/
  | drop {t : Locking} {lock : Lock} (h : Reachable t) (hlive : lock ∈ t.live) :
      Reachable (t.drop lock)

/-- What is asked for is granted just if nothing that is held is in the way. -/
theorem tryAcquire_cases (t : Locking) (wanted : List Address) :
    t.locks.conflicts wanted = false ∧
        t.tryAcquire wanted = (some ⟨t.locks.freshOwner, wanted⟩, t.grant wanted) ∨
      t.locks.conflicts wanted = true ∧ t.tryAcquire wanted = (none, t) := by
  unfold tryAcquire HeldLocks.acquire?
  cases t.locks.conflicts wanted with
  | false => exact .inl ⟨rfl, rfl⟩
  | true => exact .inr ⟨rfl, rfl⟩

/-! ### The invariant -/

/-- The table holds what the live locks cover, and the locks are apart. -/
structure Kept (t : Locking) : Prop where
  held_eq : t.locks.held = t.live.flatMap Lock.ranges
  fresh : ∀ l ∈ t.live, l.owner < t.locks.freshOwner
  owners : (t.live.map Lock.owner).Nodup
  apart : t.live.Pairwise Lock.Apart

/-- A request has to be apart from every live lock. -/
theorem Kept.conflicts_eq_false_iff (h : Kept t) :
    t.locks.conflicts wanted = false ↔
      ∀ w ∈ wanted, ∀ l ∈ t.live, ∀ a ∈ l.addresses, w.overlaps a = false := by
  rw [Controller.conflicts_eq_false, h.held_eq]
  constructor
  · intro hfree w hw l hl a ha
    exact hfree w hw (l.owner, a)
      (List.mem_flatMap.2 ⟨l, hl, Lock.mem_ranges.2 ⟨rfl, ha⟩⟩)
  · intro hfree w hw held hheld
    obtain ⟨l, hl, hmem⟩ := List.mem_flatMap.1 hheld
    exact hfree w hw l hl held.2 (Lock.mem_ranges.1 hmem).2

theorem Kept.grant (h : Kept t) (hfree : t.locks.conflicts wanted = false) :
    Kept (t.grant wanted) where
  held_eq := by
    show t.locks.held ++ _ = (t.live ++ [_]).flatMap Lock.ranges
    rw [List.flatMap_append, List.flatMap_singleton, h.held_eq]
    rfl
  fresh := by
    refine List.forall_mem_append.2 ⟨fun l hl => Nat.lt_succ_of_lt (h.fresh l hl), ?_⟩
    exact List.forall_mem_singleton.2 (Nat.lt_succ_self t.locks.freshOwner)
  owners := by
    show ((t.live ++ [_]).map Lock.owner).Nodup
    rw [List.map_append]
    refine List.nodup_append.2 ⟨h.owners, List.pairwise_singleton _ _, ?_⟩
    intro o ho fresh hfresh
    obtain ⟨l, hl, rfl⟩ := List.mem_map.1 ho
    rw [List.map_singleton, List.mem_singleton] at hfresh
    exact hfresh ▸ Nat.ne_of_lt (h.fresh l hl)
  apart := by
    refine List.pairwise_append.2 ⟨h.apart, List.pairwise_singleton _ _, ?_⟩
    intro l hl m hm a ha b hb
    rw [List.mem_singleton.1 hm] at hb
    rw [Address.overlaps_comm]
    exact h.conflicts_eq_false_iff.1 hfree b hb l hl a ha

theorem Kept.tryAcquire (h : Kept t) (wanted : List Address) : Kept (t.tryAcquire wanted).2 := by
  rcases t.tryAcquire_cases wanted with ⟨hfree, ht⟩ | ⟨-, ht⟩
  · rw [ht]
    exact h.grant hfree
  · rw [ht]
    exact h

/-- A live lock is known by its owner. -/
theorem Kept.erase_eq_filter (h : Kept t) (hlive : lock ∈ t.live) :
    t.live.erase lock = t.live.filter fun l => l.owner != lock.owner := by
  rw [h.owners.of_map.erase_eq_filter lock]
  refine List.filter_congr fun l hl => ?_
  rw [Bool.eq_iff_iff, bne_iff_ne, bne_iff_ne]
  exact not_congr ⟨congrArg Lock.owner, List.inj_on_of_nodup_map h.owners hl hlive⟩

theorem Kept.drop (h : Kept t) (hlive : lock ∈ t.live) : Kept (t.drop lock) where
  held_eq := by
    show t.locks.held.filter (fun l => l.1 != lock.owner) = (t.live.erase lock).flatMap Lock.ranges
    rw [h.held_eq, h.erase_eq_filter hlive]
    induction t.live with
    | nil => rfl
    | cons l live ih =>
      rw [List.flatMap_cons, List.filter_append, ih, Lock.filter_ranges, List.filter_cons]
      split
      · rfl
      · rfl
  fresh l hl := h.fresh l (List.mem_of_mem_erase hl)
  owners := h.owners.sublist (List.erase_sublist.map _)
  apart := h.apart.sublist List.erase_sublist

theorem Reachable.kept (h : Reachable t) : Kept t := by
  induction h with
  | start => exact ⟨rfl, (fun _ hl => nomatch hl), .nil, .nil⟩
  | tryAcquire _ wanted ih => exact ih.tryAcquire wanted
  | acquire _ hfree ih => exact ih.grant hfree
  | drop _ hlive ih => exact ih.drop hlive

/-- A lock that is given back takes its own ranges out of the table. -/
theorem Kept.held_perm_drop (h : Kept t) (hlive : lock ∈ t.live) :
    t.locks.held.Perm (lock.ranges ++ (t.drop lock).locks.held) := by
  rw [h.held_eq, (h.drop hlive).held_eq]
  exact (List.perm_cons_erase hlive).flatMap fun _ _ => .refl _

/-! ### Exclusion -/

/-- The exclusion of locks, whatever was asked for and given back before. No address lies in
    subtrees of two live locks. The table holds the ranges of the live locks, as often as they
    were asked for, so that a lock that is given back takes out its own ranges and nothing is held
    when the last one is gone. A request is granted just if none of its addresses is a prefix, or
    an extension, of one that a live lock covers; a caller that waits may go on just then, too.
    A request that is refused changes nothing. -/
theorem locks_exclude (h : Reachable t) :
    (t.live.Pairwise fun l m => l.owner ≠ m.owner ∧ ∀ x, ¬ (l.Covers x ∧ m.Covers x)) ∧
    t.locks.held = t.live.flatMap Lock.ranges ∧
    t.locks.size = (t.live.flatMap Lock.addresses).length ∧
    (∀ lock ∈ t.live, t.locks.held.Perm (lock.ranges ++ (t.drop lock).locks.held) ∧
      (t.drop lock).locks.held = (t.live.erase lock).flatMap Lock.ranges) ∧
    (t.live = [] → t.locks.size = 0) ∧
    ∀ wanted : List Address,
      ((t.tryAcquire wanted).1.isSome ↔ ∀ w ∈ wanted, ∀ l ∈ t.live, ∀ a ∈ l.addresses,
        ¬ w.elements <+: a.elements ∧ ¬ a.elements <+: w.elements) ∧
      (t.locks.conflicts wanted = false ↔ (t.tryAcquire wanted).1.isSome) ∧
      (∀ {lock : Lock}, (t.tryAcquire wanted).1 = some lock →
        lock.addresses = wanted ∧ (t.tryAcquire wanted).2 = t.grant wanted ∧
          (t.tryAcquire wanted).2.live = t.live ++ [lock] ∧
          (t.tryAcquire wanted).2.locks.held = t.locks.held ++ lock.ranges) ∧
      ((t.tryAcquire wanted).1 = none → (t.tryAcquire wanted).2 = t) := by
  have hkept := h.kept
  have hsize : t.locks.size = (t.live.flatMap Lock.addresses).length := by
    unfold HeldLocks.size
    rw [hkept.held_eq, List.length_flatMap, List.length_flatMap]
    exact congrArg List.sum (List.map_congr_left fun l _ => List.length_map _)
  refine ⟨?_, hkept.held_eq, hsize, ?_, ?_, ?_⟩
  · exact (List.pairwise_map.1 hkept.owners).and (hkept.apart.imp Lock.apart_iff.1)
  · exact fun lock hlive => ⟨hkept.held_perm_drop hlive, (hkept.drop hlive).held_eq⟩
  · intro hnone
    rw [hsize, hnone]
    rfl
  · intro wanted
    have hoverlaps : t.locks.conflicts wanted = false ↔ ∀ w ∈ wanted, ∀ l ∈ t.live,
        ∀ a ∈ l.addresses, ¬ w.elements <+: a.elements ∧ ¬ a.elements <+: w.elements := by
      rw [hkept.conflicts_eq_false_iff]
      refine forall₂_congr fun w _ => forall₂_congr fun l _ => forall₂_congr fun a _ => ?_
      rw [Bool.eq_false_iff, Ne, Address.overlaps_iff, Address.isUnder_iff, Address.isUnder_iff,
        not_or, and_comm]
    rcases t.tryAcquire_cases wanted with ⟨hfree, ht⟩ | ⟨hconflicts, ht⟩
    · rw [← hoverlaps, hfree, ht]
      refine ⟨iff_of_true rfl rfl, iff_of_true rfl rfl, ?_, nofun⟩
      rintro lock ⟨⟩
      exact ⟨rfl, rfl, rfl, rfl⟩
    · rw [← hoverlaps, hconflicts, ht]
      exact ⟨iff_of_false nofun nofun, iff_of_false nofun nofun, nofun, fun _ => rfl⟩

/-- A table with two live locks. A request in between was refused, for a range inside one that was
    held already. -/
def crowded : Locking :=
  let web : Address := ⟨[⟨"subsystem", "web"⟩]⟩
  let t := (({} : Locking).tryAcquire [web, web]).2
  let t := (t.tryAcquire [⟨[⟨"subsystem", "io"⟩]⟩, web.child ⟨"connector", "http"⟩]).2
  (t.tryAcquire [⟨[⟨"subsystem", "io"⟩]⟩]).2

/-- A range asked for twice is held twice, and the root is refused as long as anything is held. -/
theorem locks_exclude_crowded :
    crowded.Reachable ∧ crowded.live.length = 2 ∧
      crowded.locks.size = (crowded.live.flatMap Lock.addresses).length ∧
      crowded.locks.size = 3 ∧
      ((crowded.tryAcquire [.root]).1.isSome ↔ ∀ w ∈ [Address.root], ∀ l ∈ crowded.live,
        ∀ a ∈ l.addresses, ¬ w.elements <+: a.elements ∧ ¬ a.elements <+: w.elements) ∧
      (crowded.tryAcquire [.root]).1 = none ∧ (crowded.tryAcquire [.root]).2 = crowded := by
  have hreachable : crowded.Reachable := ((Reachable.start.tryAcquire _).tryAcquire _).tryAcquire _
  obtain ⟨-, -, hsize, -, -, hrequests⟩ := locks_exclude hreachable
  obtain ⟨hgranted, -, -, hrefused⟩ := hrequests [.root]
  have hnone : (crowded.tryAcquire [.root]).1 = none := by decide
  exact ⟨hreachable, by decide, hsize, by decide, hgranted, hnone, hrefused hnone⟩

end Locking

end ManagedModel
