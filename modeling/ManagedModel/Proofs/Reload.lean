import ManagedModel.Proofs.Isolation

/-! # The reload flag under interleaving

    Any number of transactions ask for a reload of the process, withdraw their
    requests and commit them, each through its own tracker, and reloads complete
    in between. The flag that they share is kept three times over: in the
    trackers, in the set of requesters and in the committed bit.

    * `ReloadBoard` holds the trackers together with the shared state, and a log
      of `ReloadEvent`s runs on it.
    * `ReloadEvent.Standing` and `ReloadEvent.CommittedSince` read off the log
      alone whose requests stand and whether one was committed after the last
      completed reload.
    * `ReloadBoard.Tells` is the invariant: the three copies agree with the log.

    The flag is thus a function of the log. Over an interval it can still change
    without any request being left over: one tracker holds one request, however
    often it was raised, and withdrawing it withdraws the request from before the
    interval as well. `ReloadEvent.Undone` says which intervals leave it alone. -/

namespace ManagedModel

/-- What happens to the requests for a reload. -/
inductive ReloadEvent where
  /-- A transaction asks for a reload. -/
  | raise (id : Nat)
  /-- A transaction withdraws its request. -/
  | revert (id : Nat)
  /-- A transaction commits its request. -/
  | commit (id : Nat)
  /-- The process has been reloaded. -/
  | complete
deriving DecidableEq

/-! ### Reading a log -/

namespace ReloadEvent

variable {log interval : List ReloadEvent} {e : ReloadEvent} {id : Nat}

/-- The transaction that uses its tracker. -/
def actor? : ReloadEvent → Option Nat
  | raise id | revert id | commit id => some id
  | complete => none

/-- The last event of transaction `id`. -/
def latest? (log : List ReloadEvent) (id : Nat) : Option ReloadEvent :=
  log.reverse.find? fun e => e.actor? = some id

/-- The request of transaction `id` stands: it was neither withdrawn nor committed since. -/
def Standing (log : List ReloadEvent) (id : Nat) : Prop :=
  latest? log id = some (raise id)

instance (log : List ReloadEvent) (id : Nat) : Decidable (Standing log id) :=
  inferInstanceAs (Decidable (latest? log id = some (raise id)))

/-- A standing request was committed, and no reload has completed since. -/
def CommittedSince (log : List ReloadEvent) : Prop :=
  ∃ before id after, log = before ++ commit id :: after ∧ Standing before id ∧ complete ∉ after

/-- An interval after `log` that leaves no request behind and takes none from before away. -/
structure Undone (log interval : List ReloadEvent) : Prop where
  /-- No reload completes. -/
  complete_notMem : complete ∉ interval
  /-- Who raises anew commits nothing and ends by withdrawing. -/
  reverts : ∀ id, ¬ Standing log id → raise id ∈ interval →
    commit id ∉ interval ∧ latest? interval id = some (revert id)
  /-- Who had a request standing before does not withdraw it. -/
  keeps : ∀ id, Standing log id → revert id ∉ interval

theorem latest?_append (log interval : List ReloadEvent) (id : Nat) :
    latest? (log ++ interval) id = (latest? interval id).or (latest? log id) := by
  unfold latest?
  rw [List.reverse_append, List.find?_append]

theorem latest?_concat (log : List ReloadEvent) (e : ReloadEvent) (id : Nat) :
    latest? (log ++ [e]) id = if e.actor? = some id then some e else latest? log id := by
  rw [latest?_append]
  by_cases h : e.actor? = some id <;> simp [latest?, h]

theorem latest?_eq_some (h : latest? log id = some e) : e ∈ log ∧ e.actor? = some id := by
  have found := List.find?_some h
  exact ⟨List.mem_reverse.1 (List.mem_of_find?_eq_some h), by simpa using found⟩

theorem standing_concat :
    Standing (log ++ [e]) id ↔ e = raise id ∨ e.actor? ≠ some id ∧ Standing log id := by
  unfold Standing
  rw [latest?_concat]
  by_cases h : e.actor? = some id
  · simp [h]
  · have other : e ≠ raise id := by
      rintro rfl
      exact h rfl
    simp [h, other]

theorem committedSince_concat :
    CommittedSince (log ++ [e]) ↔
      (∃ id, e = commit id ∧ Standing log id) ∨ e ≠ complete ∧ CommittedSince log := by
  constructor
  · rintro ⟨before, id, after, split, standing, open_⟩
    -- the commit is the new event, or lies before it
    rcases List.eq_nil_or_concat after with rfl | ⟨after, last, rfl⟩
    · obtain ⟨rfl, rest⟩ := List.append_inj' split rfl
      exact .inl ⟨id, List.head_eq_of_cons_eq rest, standing⟩
    · rw [List.concat_eq_append, ← List.cons_append, ← List.append_assoc] at split
      obtain ⟨rfl, rest⟩ := List.append_inj' split rfl
      obtain rfl := List.head_eq_of_cons_eq rest
      rw [List.concat_eq_append, List.mem_append, not_or] at open_
      exact .inr ⟨fun h => open_.2 (h ▸ List.mem_singleton_self _),
        before, id, after, rfl, standing, open_.1⟩
  · rintro (⟨id, rfl, standing⟩ | ⟨other, before, id, after, rfl, standing, open_⟩)
    · exact ⟨log, id, [], rfl, standing, List.not_mem_nil⟩
    · refine ⟨before, id, after ++ [e], by simp, standing, ?_⟩
      rw [List.mem_append, not_or]
      exact ⟨open_, fun h => other (List.mem_singleton.1 h).symm⟩

/-! #### What an interval leaves -/

/-- Nothing but a completed reload clears what was committed. -/
theorem CommittedSince.append (h : CommittedSince log) (open_ : complete ∉ interval) :
    CommittedSince (log ++ interval) := by
  obtain ⟨before, id, after, rfl, standing, since⟩ := h
  refine ⟨before, id, after ++ interval, by simp, standing, ?_⟩
  rw [List.mem_append, not_or]
  exact ⟨since, open_⟩

/-- A request that stands was raised last of all or stood before. -/
theorem raised_or_standing (h : Standing (log ++ interval) id) :
    latest? interval id = some (raise id) ∨ Standing log id := by
  unfold Standing at h ⊢
  rw [latest?_append] at h
  cases last : latest? interval id with
  | none => exact .inr (by simpa [last] using h)
  | some e => exact .inl (by simpa [last] using h)

/-- A request stands as long as it is neither withdrawn nor committed. -/
theorem Standing.append (h : Standing log id) (kept : revert id ∉ interval)
    (uncommitted : commit id ∉ interval) : Standing (log ++ interval) id := by
  unfold Standing at h ⊢
  rw [latest?_append]
  cases last : latest? interval id with
  | none => exact h
  | some e =>
    obtain ⟨mem, actor⟩ := latest?_eq_some last
    cases e with
    | raise n => simpa [actor?] using actor
    | revert n =>
      obtain rfl : n = id := by simpa [actor?] using actor
      exact absurd mem kept
    | commit n =>
      obtain rfl : n = id := by simpa [actor?] using actor
      exact absurd mem uncommitted
    | complete => cases actor

/-- A request that is not withdrawn stands on, or was committed on the way. -/
theorem Standing.survives (h : Standing log id) (open_ : complete ∉ interval)
    (kept : revert id ∉ interval) :
    CommittedSince (log ++ interval) ∨ Standing (log ++ interval) id := by
  by_cases committed : commit id ∈ interval
  · obtain ⟨before, after, split, first⟩ := List.eq_append_cons_of_mem committed
    left
    refine ⟨log ++ before, id, after, by simp [split], h.append ?_ first, ?_⟩
    · exact fun mem => kept (by simp [split, mem])
    · exact fun mem => open_ (by simp [split, mem])
  · exact .inr (h.append kept committed)

namespace Undone

/-- In an interval that leaves nothing behind, only requests from before stand. -/
theorem standing (undone : Undone log interval) (h : Standing (log ++ interval) id) :
    Standing log id := by
  refine Decidable.byContradiction fun clear => ?_
  have last := (raised_or_standing h).resolve_right clear
  have reverted := (undone.reverts id clear (latest?_eq_some last).1).2
  rw [last] at reverted
  cases reverted

/-- What was committed within the interval stood before it. -/
theorem committedSince (undone : Undone log interval) (h : CommittedSince (log ++ interval)) :
    CommittedSince log ∨ ∃ id, Standing log id := by
  obtain ⟨before, id, after, split, standing, open_⟩ := h
  -- the commit lies within the interval or before it
  rcases List.append_eq_append_iff.1 split with ⟨within, rfl, rest⟩ | ⟨since, rfl, rest⟩
  · right
    refine ⟨id, ?_⟩
    refine Decidable.byContradiction fun clear => ?_
    have last := (raised_or_standing standing).resolve_right clear
    have raised : raise id ∈ interval := by simp [rest, (latest?_eq_some last).1]
    exact (undone.reverts id clear raised).1 (by simp [rest])
  · cases since with
    | nil =>
      right
      refine ⟨id, by simpa using standing⟩
    | cons first since =>
      obtain ⟨rfl, rfl⟩ := List.cons.inj rest
      exact .inl ⟨before, id, since, rfl, standing, fun h => open_ (by simp [h])⟩

/-- Such an interval does not change whether a request is committed or stands. -/
theorem required_iff (undone : Undone log interval) :
    (CommittedSince (log ++ interval) ∨ ∃ id, Standing (log ++ interval) id) ↔
      (CommittedSince log ∨ ∃ id, Standing log id) := by
  constructor
  · rintro (committed | ⟨id, standing⟩)
    · exact undone.committedSince committed
    · exact .inr ⟨id, undone.standing standing⟩
  · rintro (committed | ⟨id, standing⟩)
    · exact .inl (committed.append undone.complete_notMem)
    · exact (standing.survives undone.complete_notMem (undone.keeps id standing)).imp_right
        fun h => ⟨id, h⟩

end Undone

end ReloadEvent

/-! ### Running a log -/

/-- The trackers of the transactions and the state that they share. -/
structure ReloadBoard where
  trackers : Nat → ReloadRequest
  shared : ReloadState

namespace ReloadBoard

open ReloadEvent

/-- Every transaction starts with a tracker of its own. -/
def start : ReloadBoard := { trackers := fun id => { id := id }, shared := {} }

/-- Transaction `id` uses its tracker. -/
def use (b : ReloadBoard) (id : Nat)
    (f : ReloadRequest → ReloadState → ReloadRequest × ReloadState) : ReloadBoard :=
  { trackers := fun n => if n = id then (f (b.trackers id) b.shared).1 else b.trackers n
    shared := (f (b.trackers id) b.shared).2 }

/-- One event. -/
def step (b : ReloadBoard) : ReloadEvent → ReloadBoard
  | raise id => b.use id ReloadRequest.raise
  | revert id => b.use id ReloadRequest.revert
  | commit id => b.use id ReloadRequest.commit
  | complete => { b with shared := b.shared.complete }

/-- A whole log, from the start. -/
def run (log : List ReloadEvent) : ReloadBoard := log.foldl step start

/-- The trackers, the set of requesters and the committed bit all say what the log says. -/
structure Tells (log : List ReloadEvent) (b : ReloadBoard) : Prop where
  id_eq : ∀ id, (b.trackers id).id = id
  raised_iff : ∀ id, (b.trackers id).raised = true ↔ Standing log id
  requester_iff : ∀ id, b.shared.requesters.contains id = true ↔ Standing log id
  committed_iff : b.shared.committed = true ↔ CommittedSince log

namespace Tells

variable {log : List ReloadEvent} {b : ReloadBoard}

theorem start : Tells [] start where
  id_eq _ := rfl
  raised_iff _ := by simp [ReloadBoard.start, Standing, latest?]
  requester_iff id := by
    have hnone : ReloadBoard.start.shared.requesters.contains id = false := rfl
    simp [hnone, Standing, latest?]
  committed_iff := by simp [ReloadBoard.start, CommittedSince]

/-- What is left to check of an event of transaction `id`: its own tracker and request, and the
    committed bit. -/
theorem used {e : ReloadEvent} {id : Nat} {t : ReloadRequest} {s : ReloadState} (h : Tells log b)
    (actor : e.actor? = some id) (id_eq : t.id = id) (raised : t.raised = true ↔ e = raise id)
    (own : s.requesters.contains id = true ↔ e = raise id)
    (others : ∀ n, n ≠ id → s.requesters.contains n = b.shared.requesters.contains n)
    (committed : s.committed = true ↔ CommittedSince (log ++ [e])) :
    Tells (log ++ [e])
      { trackers := fun n => if n = id then t else b.trackers n, shared := s } := by
  have self : Standing (log ++ [e]) id ↔ e = raise id := by
    simp [standing_concat, actor]
  have other : ∀ n, n ≠ id → (Standing (log ++ [e]) n ↔ Standing log n) := by
    intro n ne
    have apart : e.actor? ≠ some n := fun h => ne (Option.some.inj (h.symm.trans actor))
    have raised : e ≠ raise n := fun h => apart (h ▸ rfl)
    simp [standing_concat, apart, raised]
  refine ⟨fun n => ?_, fun n => ?_, fun n => ?_, committed⟩
  -- another transaction's event concerns neither its tracker nor its request
  · by_cases hn : n = id
    · simp [hn, id_eq]
    · simp [hn, h.id_eq n]
  · by_cases hn : n = id
    · subst hn
      simp [raised, self]
    · simp [hn, h.raised_iff n, other n hn]
  · by_cases hn : n = id
    · subst hn
      simp [own, self]
    · simp only [others n hn, h.requester_iff n, other n hn]

/-- A tracker that holds no request has none on record. -/
theorem get?_of_not_raised (h : Tells log b) {id : Nat} (clear : (b.trackers id).raised = false) :
    b.shared.requesters.get? id = none := by
  have absent : ¬ b.shared.requesters.contains id = true := fun found => by
    have raised := (h.raised_iff id).2 ((h.requester_iff id).1 found)
    simp [clear] at raised
  simpa [SortedMap.contains_eq_isSome] using absent

theorem tracker_eq (h : Tells log b) {id : Nat} {raised : Bool}
    (value : (b.trackers id).raised = raised) : b.trackers id = { id := id, raised := raised } := by
  have own := h.id_eq id
  cases tracker : b.trackers id with
  | mk n r =>
    rw [tracker] at own value
    obtain rfl : n = id := own
    obtain rfl : r = raised := value
    rfl

/-- Withdrawing drops the request, whether it stands or not. -/
theorem revert_eq (h : Tells log b) (id : Nat) :
    (b.trackers id).revert b.shared =
      ({ id := id }, { b.shared with requesters := b.shared.requesters.erase id }) := by
  cases raised : (b.trackers id).raised with
  | false =>
    rw [h.tracker_eq raised, SortedMap.erase_eq_self (h.get?_of_not_raised raised)]
    rfl
  | true =>
    rw [h.tracker_eq raised]
    rfl

/-- Committing drops the request and makes one that stands last. -/
theorem commit_eq (h : Tells log b) (id : Nat) :
    (b.trackers id).commit b.shared =
      ({ id := id },
        { committed := b.shared.committed || (b.trackers id).raised
          requesters := b.shared.requesters.erase id }) := by
  cases raised : (b.trackers id).raised with
  | false =>
    rw [h.tracker_eq raised, SortedMap.erase_eq_self (h.get?_of_not_raised raised), Bool.or_false]
    rfl
  | true =>
    have found : b.shared.requesters.contains id = true :=
      (h.requester_iff id).2 ((h.raised_iff id).1 raised)
    rw [h.tracker_eq raised, Bool.or_true]
    simp [ReloadRequest.commit, ReloadState.commit, found]

theorem contains_erase (ids : SortedSet Nat) {n id : Nat} (ne : n ≠ id) :
    (ids.erase id).contains n = ids.contains n := by
  rw [SortedMap.contains_eq_isSome, SortedMap.get?_erase_of_ne ids ne, SortedMap.contains_eq_isSome]

theorem step_raise (h : Tells log b) (id : Nat) :
    Tells (log ++ [raise id]) (b.step (raise id)) := by
  refine h.used rfl (h.id_eq id) (by simp [ReloadRequest.raise]) ?_ ?_ ?_
  · simp [ReloadRequest.raise, h.id_eq id, ReloadState.contains_request]
  · intro n ne
    simp only [ReloadRequest.raise, ReloadState.request, h.id_eq id, SortedSet.add]
    rw [SortedMap.contains_eq_isSome, SortedMap.get?_insert_of_ne _ ne,
      SortedMap.contains_eq_isSome]
  · simpa [ReloadRequest.raise, ReloadState.request, committedSince_concat] using h.committed_iff

theorem step_revert (h : Tells log b) (id : Nat) :
    Tells (log ++ [revert id]) (b.step (revert id)) := by
  unfold ReloadBoard.step use
  dsimp only
  rw [h.revert_eq id]
  refine h.used rfl rfl (by simp) ?_ (fun n ne => contains_erase _ ne) ?_
  · simp [SortedMap.contains_eq_isSome]
  · simpa [committedSince_concat] using h.committed_iff

theorem step_commit (h : Tells log b) (id : Nat) :
    Tells (log ++ [commit id]) (b.step (commit id)) := by
  unfold ReloadBoard.step use
  dsimp only
  rw [h.commit_eq id]
  refine h.used rfl rfl (by simp) ?_ (fun n ne => contains_erase _ ne) ?_
  · simp [SortedMap.contains_eq_isSome]
  · simp [committedSince_concat, h.committed_iff, h.raised_iff id, or_comm]

theorem step_complete (h : Tells log b) : Tells (log ++ [complete]) (b.step complete) where
  id_eq := h.id_eq
  raised_iff id := by
    simpa [ReloadBoard.step, standing_concat, actor?] using h.raised_iff id
  requester_iff id := by
    simpa [ReloadBoard.step, ReloadState.complete, standing_concat, actor?] using
      h.requester_iff id
  committed_iff := by
    simp [ReloadBoard.step, ReloadState.complete, committedSince_concat]

theorem step (h : Tells log b) (e : ReloadEvent) : Tells (log ++ [e]) (b.step e) := by
  cases e with
  | raise id => exact h.step_raise id
  | revert id => exact h.step_revert id
  | commit id => exact h.step_commit id
  | complete => exact h.step_complete

theorem foldl {log : List ReloadEvent} {b : ReloadBoard} (h : Tells log b)
    (more : List ReloadEvent) : Tells (log ++ more) (more.foldl ReloadBoard.step b) := by
  induction more generalizing log b with
  | nil => rwa [List.append_nil]
  | cons e more ih =>
    rw [List.append_cons]
    exact ih (h.step e)

end Tells

/-- After every log, all copies of the flag say what the log says. -/
theorem tells_run (log : List ReloadEvent) : Tells log (run log) :=
  Tells.start.foldl log

/-- A reload is required if a request was committed or stands. -/
theorem isRequired_run (log : List ReloadEvent) :
    (run log).shared.isRequired = true ↔ CommittedSince log ∨ ∃ id, Standing log id := by
  have h := tells_run log
  unfold ReloadState.isRequired
  rw [Bool.or_eq_true, h.committed_iff, Bool.not_eq_true', SortedMap.isEmpty_eq_false_iff]
  simp only [h.requester_iff]

end ReloadBoard

open ReloadEvent ReloadBoard

/-! ### The flag -/

/-- An interval in which every transaction that raises ends by withdrawing need not leave the flag
    as it was: a request that a transaction raises again is the one that it raised before. -/
theorem undone_raises_change_flag :
    ¬ ∀ log interval : List ReloadEvent, complete ∉ interval →
      (∀ id, raise id ∈ interval → latest? interval id = some (revert id)) →
      (run (log ++ interval)).shared.isRequired = (run log).shared.isRequired := by
  intro unchanged
  have ends : ∀ id, raise id ∈ [raise 1, revert 1] →
      latest? [raise 1, revert 1] id = some (revert id) := by
    intro id raised
    obtain rfl : id = 1 := by simpa using raised
    rfl
  exact absurd (unchanged [raise 1] [raise 1, revert 1] (by decide) ends) (by decide +kernel)

/-- In whatever order transactions raise, withdraw and commit their requests and reloads complete,
    a reload is required exactly when a standing request was committed after the last completed
    reload or some transaction's last event is a raise. An interval without a completed reload
    leaves the flag as it was if no request that stood at its start is withdrawn in it and every
    other transaction that raises in it commits nothing and ends by withdrawing. -/
theorem reload_required_exact (log interval : List ReloadEvent) :
    (∀ before, before <+: log →
      ((run before).shared.isRequired = true ↔
        CommittedSince before ∨ ∃ id, Standing before id)) ∧
    (Undone log interval →
      (run (log ++ interval)).shared.isRequired = (run log).shared.isRequired) := by
  refine ⟨fun before _ => isRequired_run before, fun undone => ?_⟩
  rw [Bool.eq_iff_iff, isRequired_run, isRequired_run]
  exact undone.required_iff

/-- Two transactions raise and withdraw across each other while a third one commits. -/
theorem reload_required_crossing :
    let log := [raise 1]
    let interval := [raise 2, raise 3, revert 2, commit 1, raise 2, revert 3, revert 2]
    Undone log interval ∧ (run log).shared.isRequired = true ∧
      (run (log ++ interval)).shared.isRequired = true := by
  intro log interval
  have ids : ∀ id, raise id ∈ interval → id = 2 ∨ id = 3 := by
    intro id raised
    have raised : id = 2 ∨ id = 3 ∨ id = 2 := by simpa [interval] using raised
    omega
  have undone : Undone log interval := by
    refine ⟨by decide, fun id _ raised => ?_, fun id standing => ?_⟩
    · rcases ids id raised with rfl | rfl <;> decide
    · obtain rfl : id = 1 := by
        have raised := (latest?_eq_some standing).1
        simpa [log] using raised
      decide
  exact ⟨undone, by decide +kernel,
    ((reload_required_exact log interval).2 undone).trans (by decide +kernel)⟩

end ManagedModel
