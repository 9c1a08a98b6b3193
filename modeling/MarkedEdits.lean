import MarkedEdits.Drafts
import MarkedEdits.Main
import MarkedEdits.Proofs.Text.Breaks
import MarkedEdits.Proofs.Marker
import MarkedEdits.Proofs.Style
import MarkedEdits.Proofs.Revert
import MarkedEdits.Proofs.Anchor
import MarkedEdits.Proofs.Plan.Claims
import MarkedEdits.Proofs.Sheet
import MarkedEdits.Proofs.Plan.Rows
import MarkedEdits.Proofs.Guards
import MarkedEdits.Proofs.Session.Basic
import MarkedEdits.Proofs.Session.History
import MarkedEdits.Proofs.Session.Sharing
import MarkedEdits.Proofs.Session.Exclusion
import MarkedEdits.Proofs.Isolation
import MarkedEdits.Proofs.Plan.Acceptance
import MarkedEdits.Proofs.Text.Placement
import MarkedEdits.Proofs.Plan.Inert
import MarkedEdits.Proofs.Scope.Guarded
import MarkedEdits.Proofs.Scope.File
import MarkedEdits.Proofs.Plan.Failure
import MarkedEdits.Proofs.Scope.Span
import MarkedEdits.Proofs.Scope.Attribution
import MarkedEdits.Proofs.Scope.Blame
import MarkedEdits.Proofs.Order
import MarkedEdits.Proofs.Scope.Layers
import MarkedEdits.Proofs.FileSystem.Contents
import MarkedEdits.Proofs.FileSystem.Checkout
import MarkedEdits.Proofs.PatchSet.Groups
import MarkedEdits.Proofs.PatchSet.Steps
import MarkedEdits.Proofs.PatchSet.RoundTrip
import MarkedEdits.Proofs.Batch.Entries
import MarkedEdits.Proofs.Batch.Together
import MarkedEdits.Proofs.Batch.Agreement
import MarkedEdits.Proofs.Batch.DryRun
import MarkedEdits.Proofs.Batch.Settled
import MarkedEdits.Proofs.Beneath
import MarkedEdits.Proofs.Batch.RoundTrip
import MarkedEdits.Proofs.PatchSet.Validity
import MarkedEdits.Proofs.FileSystem.Updates
import MarkedEdits.Proofs.Batch.Effects
import MarkedEdits.Proofs.FileSystem.Canonical
import MarkedEdits.Proofs.PatchSet.Interior
import MarkedEdits.Proofs.Batch.Confinement
import MarkedEdits.Proofs.Embedding
import MarkedEdits.Proofs.Plan.Rounds
import MarkedEdits.Proofs.Plan.Faithful
import MarkedEdits.Proofs.Plan.Overlap
import MarkedEdits.Proofs.Scope.Entanglement
import MarkedEdits.Proofs.Plan.Ending
import MarkedEdits.Proofs.Scope.Tally
import MarkedEdits.Proofs.Plan.Stages
import MarkedEdits.Proofs.Pattern
import MarkedEdits.Proofs.Scope.Sightings
import MarkedEdits.Proofs.Batch.Reports
import MarkedEdits.Proofs.Codec
import MarkedEdits.Proofs.Unwinding
import MarkedEdits.Proofs.Version.Parsing
import MarkedEdits.Proofs.Version.NormalForm
import MarkedEdits.Proofs.Checked.Planning
import MarkedEdits.Proofs.Checked.Editing
import MarkedEdits.Proofs.Kinds
import MarkedEdits.Proofs.Batch.Partition
