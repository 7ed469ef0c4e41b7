import ManagedModel.Text.Inspection
import ManagedModel.Transaction.Program

/-! # Inspection texts of transactions

    What is shown of attachments and of a transaction to a developer. -/

namespace ManagedModel

/-- The key of a slot. -/
def SlotKey.inspect {T : SlotTypes} (key : SlotKey T) : String :=
  "AttachmentKey(" ++ Text.inspect key.name ++ ")"

/-- The names of the slots that are filled. -/
def Attachments.inspect {T : SlotTypes} (a : Attachments T) : String := Text.inspectSet a.names

/-- What is shown of a transaction. -/
def View.inspect {S : Signature} (v : View S) : String :=
  "OperationContext \x7b id: " ++ toString v.id ++ ", state: " ++ v.status.name ++
    ", stage: " ++ (Status.executing v.stage).name ++
    ", booting: " ++ Text.inspectBool v.booting ++
    ", rollback_only: " ++ Text.inspectBool v.rollbackOnly ++
    ", attachments: " ++ v.attachments.inspect ++ " \x7d"

end ManagedModel
