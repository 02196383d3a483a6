import DiceNotation.Main
import DiceNotation.Session.Inspect
import DiceNotation.Proofs.Grammar
import DiceNotation.Proofs.Reader.Locality
import DiceNotation.Proofs.Reader.Soundness
import DiceNotation.Proofs.Acceptance
import DiceNotation.Proofs.Scanning
import DiceNotation.Proofs.Canonical.Derivation
import DiceNotation.Proofs.Canonical.Reparse
import DiceNotation.Proofs.Canonical.Fewest
import DiceNotation.Proofs.Height.Budget
import DiceNotation.Proofs.Height.Towers
import DiceNotation.Proofs.Height.Longest
import DiceNotation.Proofs.Roll.Transcript
import DiceNotation.Proofs.Roll.Replay
import DiceNotation.Proofs.Roll.Ceiling
import DiceNotation.Proofs.Roll.Exact
import DiceNotation.Proofs.Roll.Exactness
import DiceNotation.Proofs.Roll.Audit
import DiceNotation.Proofs.Session.History
import DiceNotation.Proofs.Session.Lifecycle
import DiceNotation.Proofs.Session.Draws
import DiceNotation.Proofs.Source.Range
import DiceNotation.Proofs.Roll.Determinism
import DiceNotation.Proofs.Scanning.Words
import DiceNotation.Proofs.Scanning.Exact
import DiceNotation.Proofs.Viability
import DiceNotation.Proofs.Viability.Expected
import DiceNotation.Proofs.Roll.Bracket
import DiceNotation.Proofs.Blanks.Respaced
import DiceNotation.Proofs.Places
import DiceNotation.Proofs.CommandLine.Input
import DiceNotation.Proofs.CommandLine.Stages
import DiceNotation.Proofs.CommandLine.ReportPlace
import DiceNotation.Proofs.Listing
import DiceNotation.Proofs.Machine
import DiceNotation.Proofs.Machine.Discipline
import DiceNotation.Proofs.Session.Ledger
