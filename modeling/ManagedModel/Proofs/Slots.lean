import Mathlib.Data.List.Nodup
import ManagedModel.Transaction.SlotCall

/-! # The slots of attachments

    The table of attachments is untyped. Whether a value is of the type that
    its key says is only found out when the slot is read.

    * A record of events tells what was stored and what was removed, and
      `lastStored` reads it by the name and the type of a key. The event of a
      call (`AttachmentCall.event?`) depends on the record alone.
    * `Attachments.Reflects` ties a table to a record: every value is of the
      type of its key, no key has two slots, and what is read under a key is
      what was last stored under it. Each event keeps this
      (`Reflects.after`).
    * A call on such a table finds no value of a foreign type, and so does to
      the table just what its event says (`Reflects.make_eq`). By induction
      over the calls, the table that they lead to reflects their record
      (`Reflects.makeAll`). -/

namespace ManagedModel

variable {T : SlotTypes}

/-! ### What was stored -/

/-- A value was stored under a key, or what was stored was removed. -/
inductive SlotEvent (T : SlotTypes) where
  | stored (key : SlotKey T) (value : T.Carrier key.type)
  | removed (key : SlotKey T)

namespace SlotEvent

/-- The key that an event is about. -/
def key : SlotEvent T → SlotKey T
  | stored key _ | removed key => key

/-- What an event leaves under its key. -/
def left? : (event : SlotEvent T) → Option (T.Carrier event.key.type)
  | stored _ value => some value
  | removed _ => none

end SlotEvent

/-- The last value stored under a key and not removed since; the newest event comes first. -/
def lastStored (key : SlotKey T) : List (SlotEvent T) → Option (T.Carrier key.type)
  | [] => none
  | .stored other value :: earlier =>
    if h : other = key then some (h ▸ value) else lastStored key earlier
  | .removed other :: earlier => if other = key then none else lastStored key earlier

theorem lastStored_self (event : SlotEvent T) (earlier : List (SlotEvent T)) :
    lastStored event.key (event :: earlier) = event.left? := by
  cases event <;> simp [lastStored, SlotEvent.key, SlotEvent.left?]

theorem lastStored_of_ne {event : SlotEvent T} {key : SlotKey T} (h : key ≠ event.key)
    (earlier : List (SlotEvent T)) :
    lastStored key (event :: earlier) = lastStored key earlier := by
  cases event with
  | stored other value =>
    have hne : other ≠ key := h.symm
    simp [lastStored, hne]
  | removed other =>
    have hne : other ≠ key := h.symm
    simp [lastStored, hne]

/-! ### Calls -/

/-- A call that fills, changes or empties a slot. To change in place what `getOrInsert` gives is a
    `modify` that follows it. -/
inductive AttachmentCall (T : SlotTypes) where
  | put (key : SlotKey T) (value : T.Carrier key.type)
  | putIfEmpty (key : SlotKey T) (value : T.Carrier key.type)
  | getOrInsert (key : SlotKey T) (value : T.Carrier key.type)
  | modify (key : SlotKey T) (change : T.Carrier key.type → T.Carrier key.type)
  | remove (key : SlotKey T)

namespace AttachmentCall

/-- The key that a call is made with. -/
def key : AttachmentCall T → SlotKey T
  | put key _ | putIfEmpty key _ | getOrInsert key _ | modify key _ | remove key => key

/-- Makes a call. It breaks off if `getOrInsert` has no value of the type of its key to give. -/
def make (a : Attachments T) : AttachmentCall T → Option (Attachments T)
  | put key value => some (a.put key value).2
  | putIfEmpty key value => some (a.putIfEmpty key value).2
  | getOrInsert key value =>
    match a.getOrInsert key value with
    | (some _, a) => some a
    | (none, _) => none
  | modify key change => some (a.modify key change).2
  | remove key => some (a.remove key).2

/-- The event of a call, if there is one, by the value that was last stored under its key. -/
def event? : (call : AttachmentCall T) → Option (T.Carrier call.key.type) → Option (SlotEvent T)
  | put key value, _ => some (.stored key value)
  | putIfEmpty key value, none => some (.stored key value)
  | putIfEmpty _ _, some _ => none
  | getOrInsert key value, none => some (.stored key value)
  | getOrInsert _ _, some _ => none
  | modify key change, some value => some (.stored key (change value))
  | modify _ _, none => none
  | remove key, _ => some (.removed key)

/-- A call has no event but of its key. -/
theorem key_of_event? {call : AttachmentCall T} {last? : Option (T.Carrier call.key.type)}
    {event : SlotEvent T} (h : call.event? last? = some event) : event.key = call.key := by
  cases call <;> cases last? <;> cases h <;> rfl

/-- The record after a call. -/
def record (earlier : List (SlotEvent T)) (call : AttachmentCall T) : List (SlotEvent T) :=
  (call.event? (lastStored call.key earlier)).toList ++ earlier

/-- The record of calls, with the newest event first. -/
def history (calls : List (AttachmentCall T)) : List (SlotEvent T) := calls.foldl record []

end AttachmentCall

/-! ### The table and the record -/

namespace Attachments

variable {a : Attachments T} {earlier : List (SlotEvent T)} {key other : SlotKey T}

/-- The attachments that calls lead to, unless one of them breaks off. -/
def ofCalls? (calls : List (AttachmentCall T)) : Option (Attachments T) :=
  calls.foldlM AttachmentCall.make {}

/-- The table after an event. -/
def after (a : Attachments T) : SlotEvent T → Attachments T
  | .stored key value => a.fill key value
  | .removed key => a.clear key

theorem get?_after_of_ne (a : Attachments T) {event : SlotEvent T} (h : key ≠ event.key) :
    (a.after event).get? key = a.get? key := by
  cases event with
  | stored other value => exact a.get?_fill_of_ne h value
  | removed other => exact a.get?_clear_of_ne h

theorem mem_slots_of_find? {d : TaggedValue T} (h : a.find? key = some d) :
    (key, d) ∈ a.slots := by
  obtain ⟨slot, hfound, rfl⟩ := Option.map_eq_some_iff.1 h
  have hkey : slot.1 = key := by simpa using List.find?_some hfound
  rw [← hkey]
  exact List.mem_of_find?_eq_some hfound

theorem isSome_find?_iff : (a.find? key).isSome = true ↔ key ∈ a.slots.map Prod.fst := by
  simp [find?]

/-- The table holds what was last stored. -/
structure Reflects (a : Attachments T) (earlier : List (SlotEvent T)) : Prop where
  /-- Every slot holds a value of the type of its key. -/
  typed : ∀ slot ∈ a.slots, slot.2.type = slot.1.type
  /-- No key has two slots. -/
  nodup : (a.slots.map Prod.fst).Nodup
  reads : ∀ key, a.get? key = lastStored key earlier

namespace Reflects

theorem empty : ({} : Attachments T).Reflects [] where
  typed := nofun
  nodup := List.nodup_nil
  reads _ := rfl

/-- Every event keeps the table in line with the record. -/
theorem after (h : a.Reflects earlier) (event : SlotEvent T) :
    (a.after event).Reflects (event :: earlier) where
  typed slot hslot := by
    cases event with
    | stored key value =>
      rcases List.mem_cons.1 hslot with rfl | hslot
      · rfl
      · exact h.typed slot (List.mem_filter.1 hslot).1
    | removed key => exact h.typed slot (List.mem_filter.1 hslot).1
  nodup := by
    have hclear (key : SlotKey T) : ((a.clear key).slots.map Prod.fst).Nodup :=
      h.nodup.sublist (List.filter_sublist.map Prod.fst)
    cases event with
    | stored key value =>
      -- the slot was emptied before it is filled
      have hnew : key ∉ (a.clear key).slots.map Prod.fst := by
        rw [← isSome_find?_iff, find?_clear_self]
        simp
      exact List.nodup_cons.2 ⟨hnew, hclear key⟩
    | removed key => exact hclear key
  reads key := by
    by_cases hkey : key = event.key
    · subst hkey
      rw [lastStored_self]
      cases event with
      | stored key value => exact a.get?_fill_self key value
      | removed key => exact a.get?_clear_self key
    · rw [a.get?_after_of_ne hkey, lastStored_of_ne hkey, h.reads]

/-- What is found in a slot is of the type asked for. -/
theorem exists_cast? (h : a.Reflects earlier) {d : TaggedValue T} (hd : a.find? key = some d) :
    ∃ value, d.cast? key.type = some value := by
  have htype : d.type = key.type := h.typed _ (mem_slots_of_find? hd)
  unfold TaggedValue.cast?
  rw [dif_pos htype]
  exact ⟨_, rfl⟩

/-- A slot that is filled can be read. -/
theorem contains_eq (h : a.Reflects earlier) (key : SlotKey T) :
    a.contains key = (a.get? key).isSome := by
  unfold contains get?
  cases hd : a.find? key with
  | none => rfl
  | some d =>
    obtain ⟨value, hvalue⟩ := h.exists_cast? hd
    simp [hvalue]

/-- A call does to the table what its event says, and does not break off. -/
theorem make_eq (h : a.Reflects earlier) (call : AttachmentCall T) :
    call.make a = some ((call.event? (a.get? call.key)).elim a a.after) := by
  have hcontains := h.contains_eq call.key
  -- whether there is an event is told by what is read, and by the call, from what is there
  cases call with
  | put key value => rfl
  | remove key => rfl
  | putIfEmpty key value =>
    simp only [AttachmentCall.key, AttachmentCall.make, putIfEmpty] at hcontains ⊢
    rw [hcontains]
    cases a.get? key with
    | none => rfl
    | some held => rfl
  | getOrInsert key value =>
    simp only [AttachmentCall.key, AttachmentCall.make, getOrInsert] at hcontains ⊢
    rw [hcontains]
    cases hheld : a.get? key with
    | none => rfl
    | some held => simp [AttachmentCall.event?]
  | modify key change =>
    simp only [AttachmentCall.key, AttachmentCall.make, modify]
    cases a.get? key with
    | none => rfl
    | some held => rfl

/-- Every call goes through. It keeps the table in line with the record, and leaves what is read
    under other keys. -/
theorem make (h : a.Reflects earlier) (call : AttachmentCall T) :
    ∃ a', call.make a = some a' ∧ a'.Reflects (call.record earlier) ∧
      ∀ key, key ≠ call.key → a'.get? key = a.get? key := by
  rw [h.make_eq call]
  unfold AttachmentCall.record
  rw [← h.reads]
  cases hevent : call.event? (a.get? call.key) with
  | none => exact ⟨a, rfl, h, fun _ _ => rfl⟩
  | some event =>
    refine ⟨a.after event, rfl, h.after event, ?_⟩
    intro key hne
    rw [← AttachmentCall.key_of_event? hevent] at hne
    exact a.get?_after_of_ne hne

/-- Calls made one after the other keep the table in line with the record. -/
theorem makeAll (h : a.Reflects earlier) (calls : List (AttachmentCall T)) :
    ∃ a', calls.foldlM AttachmentCall.make a = some a' ∧
      a'.Reflects (calls.foldl AttachmentCall.record earlier) := by
  induction calls generalizing a earlier with
  | nil => exact ⟨a, rfl, h⟩
  | cons call calls ih =>
    obtain ⟨a₁, hfirst, hreflects, -⟩ := h.make call
    obtain ⟨a', hrest, hreflects'⟩ := ih hreflects
    refine ⟨a', ?_, hreflects'⟩
    rw [List.foldlM_cons, hfirst]
    exact hrest

/-- What the calls on a slot give back. -/
theorem answers (h : a.Reflects earlier) (key : SlotKey T) (value : T.Carrier key.type) :
    (a.put key value).1 = lastStored key earlier ∧
      (a.putIfEmpty key value).1 = lastStored key earlier ∧
      (a.getOrInsert key value).1 = some ((lastStored key earlier).getD value) ∧
      (a.remove key).1 = lastStored key earlier := by
  have hcontains := h.contains_eq key
  rw [← h.reads]
  unfold put putIfEmpty getOrInsert remove
  rw [hcontains]
  cases a.get? key with
  | none => simp
  | some held => simp

/-- There are as many slots as keys that can be read. -/
theorem exists_keys (h : a.Reflects earlier) :
    ∃ keys : List (SlotKey T), keys.Nodup ∧
      (∀ key, key ∈ keys ↔ (a.get? key).isSome = true) ∧ a.size = keys.length := by
  refine ⟨a.slots.map Prod.fst, h.nodup, ?_, ?_⟩
  · intro key
    rw [← isSome_find?_iff, ← h.contains_eq]
    rfl
  · rw [List.length_map]
    rfl

end Reflects

/-- Slots are typed and independent, whatever is done with keys of whatever types. No call comes upon
    a value of a foreign type. What is read under a key, and what the calls give back, is the last
    value stored under its name and its type and not removed since. A call changes nothing that is
    read under other names or types, and the size is the number of slots that are filled. -/
theorem slots_typed_and_independent (calls : List (AttachmentCall T)) :
    ∃ a, ofCalls? calls = some a ∧
      (∀ slot ∈ a.slots, slot.2.type = slot.1.type) ∧
      (∀ key d, a.find? key = some d → ∃ value, d.cast? key.type = some value) ∧
      (∀ key, a.get? key = lastStored key (AttachmentCall.history calls)) ∧
      (∀ key value,
        (a.put key value).1 = lastStored key (AttachmentCall.history calls) ∧
        (a.putIfEmpty key value).1 = lastStored key (AttachmentCall.history calls) ∧
        (a.getOrInsert key value).1 =
          some ((lastStored key (AttachmentCall.history calls)).getD value) ∧
        (a.remove key).1 = lastStored key (AttachmentCall.history calls)) ∧
      (∀ call : AttachmentCall T, ∃ a', call.make a = some a' ∧
        ∀ key, key.name ≠ call.key.name ∨ key.type ≠ call.key.type →
          a'.get? key = a.get? key) ∧
      ∃ keys : List (SlotKey T), keys.Nodup ∧
        (∀ key, key ∈ keys ↔ (a.get? key).isSome = true) ∧ a.size = keys.length := by
  obtain ⟨a, hrun, h⟩ := Reflects.empty.makeAll calls
  refine ⟨a, hrun, h.typed, fun _ _ => h.exists_cast?, h.reads, h.answers, ?_, h.exists_keys⟩
  intro call
  obtain ⟨a', hmake, -, hothers⟩ := h.make call
  refine ⟨a', hmake, fun key hdiffers => hothers key ?_⟩
  rintro rfl
  rcases hdiffers with hname | htype
  · exact hname rfl
  · exact htype rfl

/-- A number and a text have slots of their own under one name. -/
example :
    let number : SlotKey .plain := ⟨"counter", .int⟩
    let text : SlotKey .plain := ⟨"counter", .text⟩
    (ofCalls? [.put number 3, .put text "three", .modify number (· + 1), .putIfEmpty text "four",
      .remove text]).map (fun a => (a.get? number, a.get? text, a.size)) =
        some (some 4, none, 1) := by
  decide

end Attachments

end ManagedModel
