import ManagedModel.Transaction.Attachments

/-! # Signatures

    What a controller is generic over. Handlers are named by codes, so that a
    step that waits in a queue is a plain value, and a handler may queue steps
    of its own kind without end. -/

namespace ManagedModel

/-- The types that a controller and its handlers agree on. -/
structure Signature where
  /-- Codes of step handlers. -/
  Handler : Type
  /-- The state of what lies outside the controller and handlers may reach. -/
  Environment : Type
  /-- Codes of what may happen on the controller while a transaction is in flight. -/
  Interlude : Type
  /-- The types of attachments. -/
  slots : SlotTypes

end ManagedModel
