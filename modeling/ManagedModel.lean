import ManagedModel.SortedMap.Lemmas
import ManagedModel.Schema.Operation
import ManagedModel.Schema.Validation
import ManagedModel.Registry
import ManagedModel.Model.Store
import ManagedModel.Model.Locks
import ManagedModel.Model.Edit
import ManagedModel.Process
import ManagedModel.Transaction.Lifecycle
import ManagedModel.Transaction.Agenda
import ManagedModel.Transaction.Rollback
import ManagedModel.Transaction.Program
import ManagedModel.Controller
import ManagedModel.Resource.Handlers
import ManagedModel.Property.Handlers
import ManagedModel.Model.Seed
import ManagedModel.Text.Inspection
import ManagedModel.Script.Run
import ManagedModel.Scenario.Run
import ManagedModel.Proofs.WorkingCopy
import ManagedModel.Proofs.Execution
import ManagedModel.Proofs.Isolation
import ManagedModel.Proofs.Submission
import ManagedModel.Proofs.Course.Alignment
import ManagedModel.Proofs.Course.Stages
import ManagedModel.Proofs.Course.Transaction
import ManagedModel.Proofs.Course.Settlement
import ManagedModel.Proofs.Atomicity
import ManagedModel.Proofs.Registration
import ManagedModel.Proofs.Course.Footprint
import ManagedModel.Proofs.Composition
import ManagedModel.Proofs.Coherence
import ManagedModel.Proofs.Course.Resolution
import ManagedModel.Proofs.Confluence
import ManagedModel.Proofs.Hierarchy
import ManagedModel.Proofs.Serializability
import ManagedModel.Proofs.Progress
import ManagedModel.Proofs.Scheduling
import ManagedModel.Proofs.Failure
import ManagedModel.Proofs.BootPath
import ManagedModel.Proofs.Grants
import ManagedModel.Proofs.Compensation
import ManagedModel.Proofs.Confinement
import ManagedModel.Proofs.Validation
import ManagedModel.Proofs.Conformity
import ManagedModel.Proofs.LiveAccess
import ManagedModel.Proofs.Reload
import ManagedModel.Proofs.Termination
import ManagedModel.Proofs.Deferrals
import ManagedModel.Proofs.FaultKinds
import ManagedModel.Proofs.Locking
import ManagedModel.Proofs.Descent
import ManagedModel.Proofs.Expressions
import ManagedModel.Proofs.Escaping
import ManagedModel.Proofs.Retrying
import ManagedModel.Proofs.Recovery
import ManagedModel.Proofs.Description
import ManagedModel.Proofs.Lookup
import ManagedModel.Proofs.Structure
import ManagedModel.Proofs.Publication
import ManagedModel.Proofs.AddAndWrite
import ManagedModel.Proofs.References
import ManagedModel.Proofs.Presence
import ManagedModel.Proofs.Additions
import ManagedModel.Proofs.StrictPass
import ManagedModel.Proofs.Slots
import ManagedModel.Proofs.Reading
import ManagedModel.Proofs.Matching
import ManagedModel.Proofs.Searching
