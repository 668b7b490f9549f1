import ClassIndex.Main
import ClassIndex.Model.Liveness
import ClassIndex.Proofs.Isolation
import ClassIndex.Proofs.Soundness
import ClassIndex.Proofs.Faithfulness
import ClassIndex.Proofs.Errands
import ClassIndex.Proofs.Simulation
import ClassIndex.Proofs.Requests
import ClassIndex.Proofs.FrameRule
import ClassIndex.Proofs.Tally
import ClassIndex.Proofs.Termination
import ClassIndex.Proofs.Coherence
import ClassIndex.Proofs.Ledger
import ClassIndex.Proofs.Replay
import ClassIndex.Proofs.Reindexing
import ClassIndex.Proofs.OrderIndependence
import ClassIndex.Proofs.Registry
import ClassIndex.Proofs.Entries
import ClassIndex.Proofs.Permanence
import ClassIndex.Proofs.Upkeep
import ClassIndex.Proofs.Invariants
import ClassIndex.Proofs.Teams
import ClassIndex.Proofs.Liveness
import ClassIndex.Proofs.Ownership
import ClassIndex.Proofs.Pruning
import ClassIndex.Proofs.PrunedRuns
import ClassIndex.Proofs.Reports
import ClassIndex.Proofs.References
import ClassIndex.Proofs.Hierarchy
import ClassIndex.Proofs.ForwardReferences
import ClassIndex.Proofs.CallForms
import ClassIndex.Proofs.Roster
import ClassIndex.Proofs.Operations
import ClassIndex.Proofs.Hosts
import ClassIndex.Proofs.ArgumentChecks
import ClassIndex.Proofs.Aliases
import ClassIndex.Proofs.StructuralEquality
import ClassIndex.Proofs.LineBreaks
import ClassIndex.Proofs.Listings
import ClassIndex.Proofs.InsertionOrder
