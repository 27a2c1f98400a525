import GraphQuery.Completion.Trace
import GraphQuery.Document.Reading
import GraphQuery.Json.Reader
import GraphQuery.Schema.Draft
import GraphQuery.Proofs.Binding.ArgumentOrder
import GraphQuery.Proofs.Binding.CoercedVariables
import GraphQuery.Proofs.Binding.Inclusion
import GraphQuery.Proofs.Binding.Substitution
import GraphQuery.Proofs.Completion.Arguments
import GraphQuery.Proofs.Completion.Composition
import GraphQuery.Proofs.Completion.Concurrency
import GraphQuery.Proofs.Completion.Containment
import GraphQuery.Proofs.Completion.Depth
import GraphQuery.Proofs.Completion.Erasure
import GraphQuery.Proofs.Completion.ErrorOrder
import GraphQuery.Proofs.Completion.Expansion
import GraphQuery.Proofs.Completion.InStep
import GraphQuery.Proofs.Completion.Invocations
import GraphQuery.Proofs.Completion.Listing
import GraphQuery.Proofs.Completion.Misplaced
import GraphQuery.Proofs.Completion.Once
import GraphQuery.Proofs.Completion.Reliable
import GraphQuery.Proofs.Completion.Renaming
import GraphQuery.Proofs.Completion.Reordering
import GraphQuery.Proofs.Completion.RoundTrip
import GraphQuery.Proofs.Completion.Routes
import GraphQuery.Proofs.Completion.Severity
import GraphQuery.Proofs.Completion.Timing
import GraphQuery.Proofs.Future.Ready
import GraphQuery.Proofs.Schema.Acceptable
import GraphQuery.Proofs.Selection.Acceptance
import GraphQuery.Proofs.Selection.Condensed
import GraphQuery.Proofs.Selection.Conditions
import GraphQuery.Proofs.Selection.Erasure
import GraphQuery.Proofs.Selection.Executable
import GraphQuery.Proofs.Selection.Expansion
import GraphQuery.Proofs.Selection.Grouping
import GraphQuery.Proofs.Selection.Memory
import GraphQuery.Proofs.Selection.Once
import GraphQuery.Proofs.TypeSystem.FirstFault
