import ManagedModel.Model.Store

/-! # Changes of working copies

    A working copy is changed by calls, each at one address.

    * What an operation on a tree or on a working copy comes to where it goes
      through is told by one lemma each (`WorkingCopy.create_eq_ok` and so on).
    * `ModelCall` is a call as data. A call within the scope is decided by the
      tree and changes it at the call's address; a call outside of the scope is
      refused (`ModelCall.run_cases`).
    * Off its record a copy has what it was made with
      (`WorkingCopy.Extends`), so that publishing it commits its tree
      (`CommittedModel.publish_tree`). -/

namespace ManagedModel

theorem bind_eq_ok {ε α β : Type} {x : Except ε α} {f : α → Except ε β} {b : β} :
    (x >>= f) = .ok b ↔ ∃ a, x = .ok a ∧ f a = .ok b := by
  cases x with
  | error e => simp [bind, Except.bind]
  | ok a => simp [bind, Except.bind]

theorem map_eq_ok {ε α β : Type} {x : Except ε α} {f : α → β} {b : β} :
    x.map f = .ok b ↔ ∃ a, x = .ok a ∧ f a = b := by
  cases x with
  | error e => simp [Except.map]
  | ok a => simp [Except.map]

/-! ### Trees and working copies -/

namespace Tree

/-- A tree is determined by what it has at each address. -/
theorem ext_get? {t t' : Tree} (h : ∀ a, t.get? a = t'.get? a) : t = t' :=
  congrArg Tree.mk (SortedMap.ext_get? h)

theorem put_put_self (t : Tree) (a : Address) (x y : Attributes) :
    (t.put a x).put a y = t.put a y := by
  refine ext_get? fun k => ?_
  by_cases ha : k = a
  · rw [ha, get?_put_self, get?_put_self]
  · rw [get?_put_of_ne _ ha, get?_put_of_ne _ ha, get?_put_of_ne _ ha]

theorem contains_eq (t : Tree) (a : Address) : t.contains a = (t.get? a).isSome := rfl

theorem contains_congr {t t' : Tree} {a : Address} (h : t'.get? a = t.get? a) :
    t'.contains a = t.contains a := by
  rw [contains_eq, contains_eq, h]

theorem contains_put_self (t : Tree) (a : Address) (attributes : Attributes) :
    (t.put a attributes).contains a = true := by
  rw [contains_eq, t.get?_put_self]
  rfl

theorem contains_put_of_ne (t : Tree) {a b : Address} (h : b ≠ a) (attributes : Attributes) :
    (t.put a attributes).contains b = t.contains b :=
  contains_congr (t.get?_put_of_ne h attributes)

theorem create_eq_ok {t t' : Tree} {a : Address} (h : t.create a = .ok t') :
    t.contains a = false ∧ t' = t.put a ∅ := by
  unfold create at h
  by_cases hc : t.contains a
  · rw [if_pos hc] at h
    cases h
  · rw [if_neg hc] at h
    refine ⟨Bool.eq_false_iff.2 hc, ?_⟩
    split at h
    · split at h
      · cases h
        rfl
      · cases h
    · cases h
      rfl

theorem remove_eq_ok {t t' : Tree} {a : Address} {attributes : Attributes}
    (h : t.remove a = .ok (attributes, t')) : t.get? a = some attributes ∧ t' = t.discard a := by
  unfold remove at h
  split at h
  · cases h
  · split at h
    · cases h
    · rename_i attributes' hget
      split at h
      · cases h
        exact ⟨hget, rfl⟩
      · cases h

theorem require_eq_ok {t : Tree} {a : Address} {attributes : Attributes} :
    t.require a = .ok attributes ↔ t.get? a = some attributes := by
  unfold require
  cases t.get? a with
  | none => simp
  | some attributes' => simp

end Tree

namespace WorkingCopy

variable {w w' : WorkingCopy} {a : Address}

theorem requireScope_eq_ok : w.requireScope a = .ok () ↔ w.inScope a = true := by
  unfold requireScope
  split <;> simp_all

theorem create_eq_ok :
    w.create a = .ok w' ↔
      w.inScope a = true ∧ ∃ t, w.tree.create a = .ok t ∧ w' = w.changed a t := by
  unfold create
  rw [bind_eq_ok]
  constructor
  · rintro ⟨u, hscope, h⟩
    obtain ⟨t, ht, h⟩ := bind_eq_ok.1 h
    cases h
    exact ⟨requireScope_eq_ok.1 hscope, t, ht, rfl⟩
  · rintro ⟨hscope, t, ht, rfl⟩
    refine ⟨(), requireScope_eq_ok.2 hscope, bind_eq_ok.2 ⟨t, ht, rfl⟩⟩

theorem edit_eq_ok {f : Attributes → Attributes} {old : Attributes} :
    w.edit a f = .ok (old, w') ↔
      w.inScope a = true ∧ w.tree.get? a = some old ∧ w' = w.changed a (w.tree.put a (f old)) := by
  unfold edit
  rw [bind_eq_ok]
  constructor
  · rintro ⟨u, hscope, h⟩
    obtain ⟨attributes, hget, h⟩ := bind_eq_ok.1 h
    unfold Tree.edit at h
    rw [hget] at h
    cases h
    exact ⟨requireScope_eq_ok.1 hscope, Tree.require_eq_ok.1 hget, rfl⟩
  · rintro ⟨hscope, hget, rfl⟩
    refine ⟨(), requireScope_eq_ok.2 hscope, bind_eq_ok.2 ⟨old, Tree.require_eq_ok.2 hget, ?_⟩⟩
    unfold Tree.edit
    rw [Tree.require_eq_ok.2 hget]
    rfl

theorem remove_eq_ok {attributes : Attributes} :
    w.remove a = .ok (attributes, w') ↔
      w.inScope a = true ∧ ∃ t, w.tree.remove a = .ok (attributes, t) ∧ w' = w.changed a t := by
  unfold remove
  rw [bind_eq_ok]
  constructor
  · rintro ⟨u, hscope, h⟩
    obtain ⟨⟨attributes', t⟩, ht, h⟩ := bind_eq_ok.1 h
    cases h
    exact ⟨requireScope_eq_ok.1 hscope, t, ht, rfl⟩
  · rintro ⟨hscope, t, ht, rfl⟩
    exact ⟨(), requireScope_eq_ok.2 hscope, bind_eq_ok.2 ⟨(attributes, t), ht, rfl⟩⟩

/-- But for the addresses on its record, the copy has what the tree has. -/
def Extends (base : Tree) (w : WorkingCopy) : Prop :=
  ∀ a, w.touched.get? a = none → w.tree.get? a = base.get? a

theorem extends_ofTree (base : Tree) (scope : List Address) : (ofTree base scope).Extends base :=
  fun _ _ => rfl

theorem Extends.changed {base t : Tree} (hw : w.Extends base)
    (ht : ∀ b, b ≠ a → t.get? b = w.tree.get? b) : (w.changed a t).Extends base := by
  intro b hb
  -- the changed address is put on record, so it is none of those to look at
  have hne : b ≠ a := by
    rintro rfl
    have hself : (w.changed b t).touched.get? b = some () := SortedMap.get?_insert_self _ _ _
    rw [hself] at hb
    cases hb
  have hold : (w.changed a t).touched.get? b = w.touched.get? b :=
    SortedMap.get?_insert_of_ne _ hne _
  rw [hold] at hb
  exact (ht b hne).trans (hw b hb)

end WorkingCopy

/-- The address lies in one of the subtrees. -/
def Address.LiesIn (a : Address) (scope : List Address) : Prop := scope.any fun top => a.isUnder top

/-! ### Calls on a working copy -/

/-- A call for a change of a working copy. -/
inductive ModelCall where
  /-- Adds a resource. -/
  | create (a : Address)
  /-- Opens a resource for a change and changes it. -/
  | edit (a : Address) (change : Attributes → Attributes)
  /-- Removes a resource. -/
  | remove (a : Address)

namespace ModelCall

/-- The address that the call is for. -/
def address : ModelCall → Address
  | create a => a
  | edit a _ => a
  | remove a => a

/-- The change of the copy, with the attributes of the resource that is given out. -/
def attempt : ModelCall → WorkingCopy → Except Fault (Attributes × WorkingCopy)
  | create a, w => (w.create a).map fun w => (∅, w)
  | edit a change, w => w.edit a change
  | remove a, w => w.remove a

/-- Makes the call; gives its answer. A call that fails leaves the copy as it was. -/
def run (call : ModelCall) (w : WorkingCopy) : Except Fault Attributes × WorkingCopy :=
  match call.attempt w with
  | .ok (attributes, w') => (.ok attributes, w')
  | .error fault => (.error fault, w)

/-- Makes one call after the other. -/
def runAll : List ModelCall → WorkingCopy → List (Except Fault Attributes) × WorkingCopy
  | [], w => ([], w)
  | call :: calls, w =>
    let (answer, w) := call.run w
    let (answers, w) := runAll calls w
    (answer :: answers, w)

end ModelCall

/-! ### What a call comes to -/

namespace Tree

/-- The tree with other attributes at an address, or with no resource there. -/
def store (t : Tree) (a : Address) : Option Attributes → Tree
  | some attributes => t.put a attributes
  | none => t.discard a

theorem get?_store_self (t : Tree) (a : Address) (attributes? : Option Attributes) :
    (t.store a attributes?).get? a = attributes? := by
  cases attributes? with
  | none => exact t.get?_discard_self a
  | some attributes => exact t.get?_put_self a attributes

theorem get?_store_of_ne (t : Tree) {a b : Address} (h : b ≠ a) (attributes? : Option Attributes) :
    (t.store a attributes?).get? b = t.get? b := by
  cases attributes? with
  | none => exact t.get?_discard_of_ne h
  | some attributes => exact t.get?_put_of_ne h attributes

end Tree

namespace ModelCall

/-- What the call gives out and what it leaves at its address, by the tree alone. -/
def verdict : ModelCall → Tree → Except Fault (Attributes × Option Attributes)
  | create a, t => (t.create a).map fun _ => (∅, some ∅)
  | edit a change, t => (t.require a).map fun old => (old, some (change old))
  | remove a, t => (t.remove a).map fun r => (r.1, none)

/-- A call within the scope is decided by the tree and changes it at the call's address. -/
theorem attempt_of_inScope (call : ModelCall) {w : WorkingCopy}
    (h : w.inScope call.address = true) :
    call.attempt w = (call.verdict w.tree).map fun r =>
      (r.1, w.changed call.address (w.tree.store call.address r.2)) := by
  have hscope := WorkingCopy.requireScope_eq_ok.2 h
  cases call with
  | create a =>
    simp only [address] at hscope
    simp only [attempt, verdict, WorkingCopy.create, hscope]
    cases hcreate : w.tree.create a with
    | error fault => rfl
    | ok t =>
      obtain ⟨-, rfl⟩ := Tree.create_eq_ok hcreate
      rfl
  | edit a change =>
    simp only [address] at hscope
    simp only [attempt, verdict, WorkingCopy.edit, Tree.edit, hscope]
    cases w.tree.require a with
    | error fault => rfl
    | ok old => rfl
  | remove a =>
    simp only [address] at hscope
    simp only [attempt, verdict, WorkingCopy.remove, hscope]
    cases hremove : w.tree.remove a with
    | error fault => rfl
    | ok r =>
      obtain ⟨attributes, t⟩ := r
      obtain ⟨-, rfl⟩ := Tree.remove_eq_ok hremove
      rfl

/-- A call outside of the scope fails. -/
theorem attempt_of_not_inScope (call : ModelCall) {w : WorkingCopy}
    (h : w.inScope call.address = false) :
    call.attempt w = .error (.internal (.notLocked call.address)) := by
  have hscope : w.requireScope call.address = .error (.internal (.notLocked call.address)) := by
    unfold WorkingCopy.requireScope
    rw [h]
    rfl
  cases call with
  | create a =>
    simp only [address] at hscope
    simp only [attempt, WorkingCopy.create, hscope]
    rfl
  | edit a change =>
    simp only [address] at hscope
    simp only [attempt, WorkingCopy.edit, hscope]
    rfl
  | remove a =>
    simp only [address] at hscope
    simp only [attempt, WorkingCopy.remove, hscope]
    rfl

/-- A call that goes through lies within the scope and changes the tree at its address. -/
theorem attempt_eq_ok {call : ModelCall} {w w' : WorkingCopy} {attributes : Attributes}
    (h : call.attempt w = .ok (attributes, w')) :
    w.inScope call.address = true ∧
      ∃ attributes?, w' = w.changed call.address (w.tree.store call.address attributes?) := by
  by_cases hscope : w.inScope call.address = true
  · rw [call.attempt_of_inScope hscope] at h
    obtain ⟨r, -, hr⟩ := map_eq_ok.1 h
    cases hr
    exact ⟨hscope, r.2, rfl⟩
  · rw [call.attempt_of_not_inScope (Bool.eq_false_iff.2 hscope)] at h
    cases h

/-- A call leaves the copy alone or changes it at an address within the scope. -/
theorem run_cases (call : ModelCall) (w : WorkingCopy) :
    (call.run w).2 = w ∨
      ∃ r, w.inScope call.address = true ∧ call.verdict w.tree = .ok r ∧
        (call.run w).2 = w.changed call.address (w.tree.store call.address r.2) := by
  unfold run
  by_cases hscope : w.inScope call.address = true
  · rw [call.attempt_of_inScope hscope]
    cases hverdict : call.verdict w.tree with
    | error fault => exact .inl rfl
    | ok r => exact .inr ⟨r, hscope, rfl, rfl⟩
  · rw [call.attempt_of_not_inScope (Bool.eq_false_iff.2 hscope)]
    exact .inl rfl

/-- What every single call keeps a sequence of calls keeps. -/
theorem runAll_keeps {I : WorkingCopy → Prop}
    (h : ∀ (call : ModelCall) (w : WorkingCopy), I w → I (call.run w).2) {w : WorkingCopy}
    (hw : I w) (calls : List ModelCall) : I (runAll calls w).2 := by
  induction calls generalizing w with
  | nil => exact hw
  | cons call calls ih => exact ih (h call w hw)

theorem runAll_concat (calls : List ModelCall) (call : ModelCall) (w : WorkingCopy) :
    runAll (calls ++ [call]) w =
      ((runAll calls w).1 ++ [(call.run (runAll calls w).2).1],
        (call.run (runAll calls w).2).2) := by
  induction calls generalizing w with
  | nil => rfl
  | cons first calls ih =>
    show (_ :: (runAll (calls ++ [call]) _).1, (runAll (calls ++ [call]) _).2) = _
    rw [ih]
    rfl

/-- Calls put no address on the record but such as lie in the scope. -/
theorem liesIn_of_runAll {tree : Tree} {scope : List Address} (calls : List ModelCall) {a : Address}
    (ha : ((runAll calls (.ofTree tree scope)).2.touched.get? a).isSome) : a.LiesIn scope := by
  let I := fun w : WorkingCopy =>
    w.scope = scope ∧ ∀ a, (w.touched.get? a).isSome → a.LiesIn scope
  refine (runAll_keeps (I := I) ?_ ⟨rfl, fun a ha => by cases ha⟩ calls).2 a ha
  rintro call w ⟨hscope, hw⟩
  rcases call.run_cases w with hsame | ⟨r, hin, -, hrun⟩
  · rw [hsame]
    exact ⟨hscope, hw⟩
  · rw [hrun]
    refine ⟨hscope, fun b hb => ?_⟩
    by_cases hne : b = call.address
    · rw [hne, ← hscope]
      exact hin
    · refine hw b ?_
      rw [← SortedMap.get?_insert_of_ne w.touched hne ()]
      exact hb

/-- Off their record, calls leave the copy as it was made. -/
theorem extends_of_runAll (tree : Tree) (scope : List Address) (calls : List ModelCall) :
    (runAll calls (.ofTree tree scope)).2.Extends tree := by
  refine runAll_keeps (fun call w hw => ?_) (WorkingCopy.extends_ofTree tree scope) calls
  rcases call.run_cases w with hsame | ⟨r, -, -, hrun⟩
  · rw [hsame]
    exact hw
  · rw [hrun]
    exact hw.changed fun b hb => w.tree.get?_store_of_ne hb r.2

end ModelCall

/-! ### What is committed -/

namespace CommittedModel

theorem get?_carry (source target : Tree) (a b : Address) :
    (carry source target b).get? a = if a = b then source.get? a else target.get? a := by
  unfold carry
  by_cases h : a = b
  · subst h
    rw [if_pos rfl]
    cases hs : source.get? a with
    | none => exact target.get?_discard_self a
    | some attributes => exact target.get?_put_self a attributes
  · rw [if_neg h]
    cases source.get? b with
    | none => exact target.get?_discard_of_ne h
    | some attributes => exact target.get?_put_of_ne h attributes

theorem get?_foldl_carry (source : Tree) (addresses : List Address) (target : Tree) (a : Address) :
    (addresses.foldl (carry source) target).get? a =
      if a ∈ addresses then source.get? a else target.get? a := by
  -- if the address is on the rest of the list, too, then the rest decides
  induction addresses generalizing target with
  | nil => rfl
  | cons b addresses ih =>
    rw [List.foldl_cons, ih, get?_carry]
    by_cases hmem : a ∈ addresses
    · rw [if_pos hmem, if_pos (List.mem_cons_of_mem b hmem)]
    · rw [if_neg hmem]
      by_cases hab : a = b
      · rw [if_pos hab, if_pos (hab ▸ List.mem_cons_self)]
      · rw [if_neg hab, if_neg]
        rintro (_ | ⟨_, h⟩)
        · exact hab rfl
        · exact hmem h

/-- Publishing a copy commits what the copy has at the addresses on its record. -/
theorem get?_publish (s : CommittedModel) (w : WorkingCopy) (a : Address) :
    (s.publish w).tree.get? a =
      if (w.touched.get? a).isSome then w.tree.get? a else s.tree.get? a := by
  have htouched : a ∈ SortedSet.toList w.touched ↔ (w.touched.get? a).isSome :=
    SortedMap.mem_keys_iff
  unfold publish
  split
  · dsimp only
    rw [get?_foldl_carry]
    by_cases ha : (w.touched.get? a).isSome
    · rw [if_pos (htouched.2 ha), if_pos ha]
    · rw [if_neg fun hmem => ha (htouched.1 hmem), if_neg ha]
  · rename_i hclean
    -- nothing is on record
    have hempty : w.touched.entries = [] := by
      simpa [WorkingCopy.isDirty, SortedMap.isEmpty] using hclean
    have hnone : w.touched.get? a = none := by
      show Entries.get? a w.touched.entries = none
      rw [hempty]
      rfl
    rw [hnone]
    rfl

/-- Publishing a copy of the committed tree commits the copy's tree. -/
theorem publish_tree {s : CommittedModel} {w : WorkingCopy} (h : w.Extends s.tree) :
    (s.publish w).tree = w.tree := by
  refine Tree.ext_get? fun a => ?_
  rw [get?_publish]
  by_cases ha : (w.touched.get? a).isSome
  · rw [if_pos ha]
  · rw [if_neg ha, h a (Option.not_isSome_iff_eq_none.1 ha)]

/-- Copies with one record that have the same at the addresses on it come to the same. -/
theorem publish_congr {s : CommittedModel} {w v : WorkingCopy} (htouched : v.touched = w.touched)
    (hget : ∀ a, (w.touched.get? a).isSome → v.tree.get? a = w.tree.get? a) :
    s.publish v = s.publish w := by
  have htree : (s.publish v).tree = (s.publish w).tree := by
    refine Tree.ext_get? fun a => ?_
    rw [get?_publish, get?_publish, htouched]
    by_cases ha : (w.touched.get? a).isSome
    · rw [if_pos ha, if_pos ha, hget a ha]
    · rw [if_neg ha, if_neg ha]
  have hdirty : v.isDirty = w.isDirty := by
    unfold WorkingCopy.isDirty
    rw [htouched]
  unfold publish at htree ⊢
  rw [hdirty] at htree ⊢
  by_cases h : w.isDirty = true
  · rw [if_pos h, if_pos h] at htree ⊢
    rw [CommittedModel.mk.injEq]
    exact ⟨htree, rfl⟩
  · rw [if_neg h, if_neg h]

end CommittedModel

end ManagedModel
