import ManagedModel.Fault

/-! # Changes of status

    A transaction changes its status only as `Status.allows` says; any other
    change is a fault and leaves the status as it is. -/

namespace ManagedModel

namespace Status

/-- The status after a change. -/
def moveTo (before after : Status) : Except Fault Status :=
  if before.allows after then .ok after else .error (.internal (.illegalTransition before after))

end Status

end ManagedModel
