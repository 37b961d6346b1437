import BacktrackRegex.Main
import BacktrackRegex.Proofs.Language.Matching
import BacktrackRegex.Proofs.Matcher.Agreement
import BacktrackRegex.Proofs.Search.Termination
import BacktrackRegex.Proofs.Search.Budget
import BacktrackRegex.Proofs.Pattern.Grammar
import BacktrackRegex.Proofs.Pattern.Unambiguity
import BacktrackRegex.Proofs.Pattern.Completeness
import BacktrackRegex.Proofs.Pattern.Acceptance
import BacktrackRegex.Proofs.Pattern.Canonical
import BacktrackRegex.Proofs.Pattern.Printing
import BacktrackRegex.Proofs.Pattern.Refusal
import BacktrackRegex.Proofs.Pattern.Openings
import BacktrackRegex.Proofs.Pattern.Position
import BacktrackRegex.Proofs.Captures.Laminar
import BacktrackRegex.Proofs.Trace.Certificate
import BacktrackRegex.Proofs.Captures.Faults
import BacktrackRegex.Proofs.Search.Memory
import BacktrackRegex.Proofs.Search.Range
import BacktrackRegex.Proofs.Pattern.Translation
import BacktrackRegex.Proofs.Pattern.Retry
import BacktrackRegex.Proofs.CommandLine.Output
import BacktrackRegex.Proofs.Trace.Reading
import BacktrackRegex.Proofs.Program.Emission
import BacktrackRegex.Proofs.Search.Confinement
import BacktrackRegex.Proofs.Search.Undoing
import BacktrackRegex.Proofs.CommandLine.Acceptance
