import ManagedModel.Script.Action
import ManagedModel.Transaction.Inspection

/-! # Running scripts

    What the actions of a script do, as programs of step handlers and rollback
    handlers, and the controller that runs them. Actions run in order up to the
    first that fails.

    Nested operations may run scripts that nest operations in turn; the
    controller carries a bound on how deep that goes. -/

namespace ManagedModel

/-- The actions see this much of a model's environment. -/
abbrev ScriptProgram := Program Signature.scripted

/-! ### Rollback handlers -/

namespace RollbackAction

/-- The state of what lies outside, with one more entry in the log. -/
def logged (entry : LogEntry) (e : ModelEnvironment (List LogEntry)) :
    ModelEnvironment (List LogEntry) :=
  { e with other := e.other ++ [entry] }

/-- The slot for a note to rollback handlers. -/
@[reducible] def noteKey : SlotKey Signature.scripted.slots :=
  { name := "note", type := some .text }

/-- What an action does. -/
def program (cfg : PropertyConfig) (op : Operation) :
    RollbackAction → RollbackProgram Signature.scripted Unit
  | log text => .environment (logged (.text text)) fun _ => .pure ()
  | probe =>
    .observe fun v =>
      .environment
        (logged (.rollbackProbe
          { cause := v.cause
            reloadRequired := v.reloadRequired
            operation := op
            note? := v.attachments.get? noteKey }))
        fun _ => .pure ()
  | withdrawReload => .withdrawReload (.pure ())
  | setProperty name value? =>
    .environment (fun e => { e with live := cfg.apply name value? e.live }) fun _ => .pure ()
  | fail fault => .fail fault

/-- What a list of actions does. -/
def programs (cfg : PropertyConfig) (op : Operation) :
    List RollbackAction → RollbackProgram Signature.scripted Unit
  | [] => .pure ()
  | a :: as => (a.program cfg op).bind fun _ => programs cfg op as

end RollbackAction

/-! ### Step handlers -/

namespace Action

/-- Writes an entry into the log. -/
def note (entry : LogEntry) : ScriptProgram Unit :=
  .changeEnvironment (RollbackAction.logged entry)

/-- The slot of a call. -/
@[reducible] def slotKey (c : PlainSlotCall) : SlotKey Signature.scripted.slots :=
  { name := c.name, type := some c.type }

/-- Carries out a call on a slot. -/
def runSlotCall (c : PlainSlotCall) : ScriptProgram (Option Value) := do
  let call : SlotCall (Signature.scripted.slots.Carrier (slotKey c).type) := c.call
  let old ← Program.withAttachments fun a => SlotCall.run call a
  return old.map c.type.toValue

/-- Logs what the handler can see. -/
def logProbe (op : Operation) : ScriptProgram Unit := do
  let v ← Program.view
  let live ← Property.readLive
  note (.probe
    { id := v.id
      stage := v.stage
      status := v.status
      booting := v.booting
      processKind := v.processKind
      rollbackOnly := v.rollbackOnly
      reloadRequired := v.reloadRequired
      operation := op
      touched := SortedSet.toList v.working.touched
      properties := live.values })

mutual

/-- What an action does, in a step that runs with the given operation. -/
def program (cfg : PropertyConfig) (op : Operation) : Action → ScriptProgram Unit
  | log text => note (.text text)
  | probe => logProbe op
  | describe => do note (.text (← Program.view).inspect)
  | fail fault => Program.fail fault
  | attempt body => do
    match ← (programs cfg op body).attempt with
    | .ok () => note (.caught none)
    | .error fault => note (.caught (some fault))
  | markRollbackOnly => .markRollbackOnly (.pure ())
  | askReload => .askReload (.pure ())
  | withdrawReload => .withdrawReload (.pure ())
  | setResult value => Program.result value
  | addStep stage handler operation? queueEnd =>
    Program.addStep { stage, handler, operation?, queueEnd }
  | onRollback body => Program.addRollback fun op => RollbackAction.programs cfg op body
  | create address? changes => do
    let address := address?.getD op.address
    Program.createAt address
    let before ← Program.editAt address changes.apply
    note (.previous (changes.previous before))
  | edit address? changes => do
    let before ← Program.editAt (address?.getD op.address) changes.apply
    note (.previous (changes.previous before))
  | remove address? => do
    note (.attributes (← Program.removeAt (address?.getD op.address)))
  | read address? => do note (.attributes (← Program.readAt (address?.getD op.address)))
  | has address? => do
    let v ← Program.view
    note (.present (v.working.tree.contains (address?.getD op.address)))
  | children address? => do
    let v ← Program.view
    note (.addresses (v.working.tree.children (address?.getD op.address)))
  | schema address? => do
    let d ← Program.schema (address?.getD op.address)
    note (.names (d.attributes.map (·.name)))
  | createResource operation? => do
    note (.attributes (← Resource.create (operation?.getD op)))
  | writeResource operation? => do note (.change (← Resource.write (operation?.getD op)))
  | discardResource operation? => do
    note (.attributes (← Resource.discard (operation?.getD op)))
  | slot call => do note (.slot (← runSlotCall call))
  | setProperty name value? => Property.setLive cfg name value?
  | defer name model fault => Property.defer name model fault
  | retryParked => do note (.retried (← Property.retryParked cfg))
  | forgetParked name => do note (.forgot (← Property.forgetParked name))
  | applyParked => Property.applyParked cfg
  | showParked => do note (.parked (← Property.readParked?))
  | nested operations unlocked => .interlude { operations, unlocked } (.pure ())

/-- What a list of actions does. -/
def programs (cfg : PropertyConfig) (op : Operation) : List Action → ScriptProgram Unit
  | [] => .pure ()
  | a :: as => (program cfg op a).bind fun _ => programs cfg op as

end

end Action

/-! ### Controllers -/

namespace Script

/-- Writes an entry into the log of a controller's state. -/
def logIn (entry : LogEntry) (s : ControllerState Signature.scripted) :
    ControllerState Signature.scripted :=
  { s with environment := RollbackAction.logged entry s.environment }

/-- Submits the operations of an interlude. -/
def submitNested (c : Controller Signature.scripted) (n : NestedSubmission)
    (s : ControllerState Signature.scripted) : ControllerState Signature.scripted :=
  if !n.unlocked && s.locks.conflicts (n.operations.map (·.address)) then logIn .blocked s
  else
    match c.executeAll n.operations s with
    | .ok (outcome, s) => logIn (.nested outcome s.store.tree) s
    | .error stall => logIn (.stalled stall) s

/-- A controller that runs scripts, with nested operations up to a depth. -/
def controller (registry : Registry (ModelHandler Script)) (processKind : ProcessKind)
    (cfg : PropertyConfig) (stepLimit : Nat) : (depth : Nat) → Controller Signature.scripted
  | 0 =>
    { registry, processKind, stepLimit
      handle := ModelHandler.program cfg fun script op => Action.programs cfg op script
      interlude := fun _ => logIn (.stalled .stepLimit) }
  | depth + 1 =>
    { registry, processKind, stepLimit
      handle := ModelHandler.program cfg fun script op => Action.programs cfg op script
      interlude := fun n s =>
        submitNested (controller registry processKind cfg stepLimit depth) n s }

end Script

end ManagedModel
