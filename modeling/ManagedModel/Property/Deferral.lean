import ManagedModel.Property.Signature

/-! # Deferring values

    The calls on live properties and parked values that the steps of a
    transaction make. The parked values are an attachment of the transaction.

    Whenever a value is parked, a VERIFY step is queued that fails, with the
    fault the value was parked with, if it is parked still. While booting, the
    first deferral also queues a strict pass over the parked values at the end
    of RUNTIME. -/

namespace ManagedModel

namespace Property

variable {X : Signature}

/-! ### Live properties -/

/-- The live properties. -/
def readLive : Program X.withProperties LiveProperties :=
  .environment id fun e => .pure e.live

/-- Changes the live properties. -/
def changeLive (change : LiveProperties → LiveProperties) : Program X.withProperties Unit :=
  .changeEnvironment fun e => { e with live := change e.live }

/-- Changes a live property and notifies the updater. -/
def setLive (cfg : PropertyConfig) (name : String) (value? : Option String) :
    Program X.withProperties Unit :=
  changeLive (cfg.apply name value?)

/-! ### Parked values -/

/-- The attachment with the parked values. -/
@[reducible] def parkedKey : SlotKey X.withProperties.slots :=
  { name := "system-property.deferred", type := none }

/-- The parked values, if any value was ever parked. -/
def readParked? : Program X.withProperties (Option ParkedValues) :=
  .observe fun v => .pure (v.attachments.get? parkedKey)

/-- Changes the parked values, if any value was ever parked. -/
def changeParked (change : ParkedValues → ParkedValues) : Program X.withProperties Unit :=
  .attach (fun a => (a.modify parkedKey change).2) fun _ => .pure ()

/-- Parks a value, and queues the check that it does not stay parked. -/
def defer (name : String) (model : Attributes) (fault : Fault) :
    Program X.withProperties Unit := do
  let v ← Program.view
  let parked := (v.attachments.get? parkedKey).getD {}
  let queuePass := v.booting && !parked.passQueued
  let parked :=
    { parked.park name { model, fault } with passQueued := parked.passQueued || queuePass }
  Program.attach (fun a => a.fill parkedKey parked) fun _ => .pure ()
  Program.addStep { stage := .verify, handler := .property (.verify name) }
  if queuePass then Program.addStep { stage := .runtime, handler := .property .applyParked }

/-- Fails if the value of a property is still parked. -/
def verify (name : String) : Program X.withProperties Unit := do
  match (← readParked?).bind (·.get? name) with
  | some v => .markRollbackOnly (.fail v.fault)
  | none => return ()

/-- Applies the parked values that resolve by now; gives how many. -/
def retryParked (cfg : PropertyConfig) : Program X.withProperties Nat := do
  match ← readParked? with
  | none => return 0
  | some parked => do
    let live ← readLive
    let (count, parked, live) := parked.retry cfg live
    changeParked fun _ => parked
    changeLive fun _ => live
    return count

/-- Drops the parked value of a property, and gives it. -/
def forgetParked (name : String) : Program X.withProperties (Option ParkedValue) := do
  let parked? ← readParked?
  changeParked (·.forget name)
  return parked?.bind (·.get? name)

/-- Applies all parked values; the first that does not resolve fails the transaction. -/
def applyParked (cfg : PropertyConfig) : Program X.withProperties Unit := do
  match ← readParked? with
  | none => return ()
  | some parked => do
    let live ← readLive
    let (outcome, parked, live) := parked.applyStrictly cfg live
    changeParked fun _ => parked
    changeLive fun _ => live
    match outcome with
    | .ok () => return ()
    | .error fault => .markRollbackOnly (.fail fault)

end Property

end ManagedModel
