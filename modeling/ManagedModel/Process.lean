import ManagedModel.SortedMap

/-! # The managed process

    A model describes a process. Some changes reach the process only when it
    reloads its configuration.

    * `ReloadState` is shared by all transactions: whether a committed one
      asked for a reload, and which transactions in flight do.
    * `ReloadRequest` belongs to one transaction. It remembers whether the
      transaction has a request standing, so that withdrawing or committing
      twice is harmless. -/

namespace ManagedModel

/-- The kinds of processes. -/
inductive ProcessKind where
  | server
  | managedServer
  | hostController
deriving DecidableEq

namespace ProcessKind

/-- The name of a kind. -/
def name : ProcessKind → String
  | server => "server"
  | managedServer => "managed-server"
  | hostController => "host-controller"

/-- Servers run the configuration themselves, so changes concern them at run time. -/
def isServer : ProcessKind → Bool
  | server | managedServer => true
  | hostController => false

end ProcessKind

/-- Who asked for a reload of the process. -/
structure ReloadState where
  /-- A committed transaction did, and no reload has completed since. -/
  committed : Bool := false
  /-- The transactions in flight with a request standing. -/
  requesters : SortedSet Nat := ∅
deriving DecidableEq

namespace ReloadState

/-- Whether the process has to be reloaded. -/
def isRequired (s : ReloadState) : Bool := s.committed || !s.requesters.isEmpty

/-- A transaction asks for a reload. -/
def request (s : ReloadState) (id : Nat) : ReloadState :=
  { s with requesters := SortedSet.add s.requesters id }

/-- A transaction withdraws its request; tells whether there was one. -/
def withdraw (s : ReloadState) (id : Nat) : Bool × ReloadState :=
  (s.requesters.contains id, { s with requesters := s.requesters.erase id })

/-- A transaction commits its request, if there is one. -/
def commit (s : ReloadState) (id : Nat) : ReloadState :=
  if s.requesters.contains id then
    { committed := true, requesters := s.requesters.erase id }
  else s

/-- The process has been reloaded. Requests of transactions in flight stand. -/
def complete (s : ReloadState) : ReloadState := { s with committed := false }

end ReloadState

/-- The request of one transaction. -/
structure ReloadRequest where
  id : Nat
  /-- Whether the request stands. -/
  raised : Bool := false
deriving DecidableEq

namespace ReloadRequest

/-- Asks for a reload. -/
def raise (t : ReloadRequest) (s : ReloadState) : ReloadRequest × ReloadState :=
  ({ t with raised := true }, s.request t.id)

/-- Withdraws the request if it stands. -/
def revert (t : ReloadRequest) (s : ReloadState) : ReloadRequest × ReloadState :=
  if t.raised then ({ t with raised := false }, (s.withdraw t.id).2) else (t, s)

/-- Commits the request if it stands. -/
def commit (t : ReloadRequest) (s : ReloadState) : ReloadRequest × ReloadState :=
  if t.raised then ({ t with raised := false }, s.commit t.id) else (t, s)

end ReloadRequest

end ManagedModel
