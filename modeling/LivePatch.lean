import LivePatch.Proofs.Accounting
import LivePatch.Proofs.Atomicity
import LivePatch.Proofs.Balance
import LivePatch.Proofs.Coverage
import LivePatch.Proofs.Description
import LivePatch.Proofs.Discovery
import LivePatch.Proofs.Establishment
import LivePatch.Proofs.Exclusion
import LivePatch.Proofs.Executability
import LivePatch.Proofs.Fatality
import LivePatch.Proofs.Feasibility
import LivePatch.Proofs.Indifference
import LivePatch.Proofs.Integrity
import LivePatch.Proofs.Invisibility
import LivePatch.Proofs.Lookup
import LivePatch.Proofs.MemoryLaws
import LivePatch.Proofs.Placement
import LivePatch.Proofs.Procedure
import LivePatch.Proofs.Refinement
import LivePatch.Proofs.Refusal
import LivePatch.Proofs.Reporting
import LivePatch.Proofs.Retraction
import LivePatch.Proofs.Rights
import LivePatch.Proofs.Rollback
import LivePatch.Proofs.Safety
import LivePatch.Proofs.Staleness
import LivePatch.Proofs.Suspension
import LivePatch.Proofs.Translation
import LivePatch.Proofs.Unwinding
import LivePatch.Session.Simulated
import LivePatch.Session.Trapped
