import PatternMachine.Text.Split
import PatternMachine.Automaton.Json
import PatternMachine.Search.Json
import PatternMachine.Regex
import PatternMachine.Proofs.Text.Offsets
import PatternMachine.Proofs.Automaton.Editing
import PatternMachine.Proofs.Search.Unguarded
import PatternMachine.Proofs.Pattern.Spelling
import PatternMachine.Proofs.Construction.Scan
import PatternMachine.Proofs.Regex.Acceptance
import PatternMachine.Proofs.Regex.Backtracking
import PatternMachine.Proofs.Regex.Trim
import PatternMachine.Proofs.Regex.Contiguous
import PatternMachine.Proofs.Regex.Alternation
import PatternMachine.Proofs.Pattern.Anchors
import PatternMachine.Proofs.Pattern.Escaped
import PatternMachine.Proofs.Regex.Escaped
import PatternMachine.Proofs.Regex.Enclosed
import PatternMachine.Proofs.Pattern.Enclosing
import PatternMachine.Proofs.Construction.Writing
import PatternMachine.Proofs.Construction.Standing
import PatternMachine.Proofs.Construction.Labels
import PatternMachine.Proofs.Construction.Faults
import PatternMachine.Proofs.Search.Safety
import PatternMachine.Proofs.Search.Replay
import PatternMachine.Proofs.Search.Bounds
import PatternMachine.Proofs.Pattern.Pairing
import PatternMachine.Proofs.Pattern.Verdict
import PatternMachine.Proofs.Automaton.Removal
import PatternMachine.Proofs.Automaton.Merging
import PatternMachine.Proofs.Construction.Size
import PatternMachine.Proofs.Text.Lookback
import PatternMachine.Proofs.Text.Pieces
import PatternMachine.Proofs.Text.Delimiters
import PatternMachine.Proofs.Text.Depth
import PatternMachine.Proofs.Text.Written
import PatternMachine.Proofs.Text.Painted
import PatternMachine.Proofs.Automaton.Listing
import PatternMachine.Proofs.Search.Trace
import PatternMachine.Proofs.Search.Suffix
import PatternMachine.Proofs.Construction.Stepping
import PatternMachine.Proofs.Construction.Stacks
import PatternMachine.Proofs.Construction.Unwinding
