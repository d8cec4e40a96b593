import RegexAutomaton.Main
import RegexAutomaton.Journal
import RegexAutomaton.Automaton.Step
import RegexAutomaton.Automaton.Path
import RegexAutomaton.Tree
import RegexAutomaton.Regex.Language
import RegexAutomaton.Proofs.Extension
import RegexAutomaton.Proofs.Separation
import RegexAutomaton.Proofs.Composition
import RegexAutomaton.Proofs.CarefulRun
import RegexAutomaton.Proofs.Grouping
import RegexAutomaton.Proofs.Precedence
import RegexAutomaton.Proofs.Alternation
import RegexAutomaton.Proofs.Juxtaposition
import RegexAutomaton.Proofs.Assembling
import RegexAutomaton.Proofs.Denotation
import RegexAutomaton.Proofs.Acceptance
import RegexAutomaton.Proofs.Spending
import RegexAutomaton.Proofs.Discovery
import RegexAutomaton.Proofs.Trim
import RegexAutomaton.Proofs.Counting
import RegexAutomaton.Proofs.Shape
import RegexAutomaton.Proofs.Renaming
import RegexAutomaton.Proofs.TableTexts
import RegexAutomaton.Proofs.Recovery
import RegexAutomaton.Proofs.Relocation
import RegexAutomaton.Proofs.TextStages
import RegexAutomaton.Proofs.Resemblance
import RegexAutomaton.Proofs.CheckedAccess
import RegexAutomaton.Proofs.Realization
import RegexAutomaton.Proofs.Paraphrase
import RegexAutomaton.Proofs.Tabulation
import RegexAutomaton.Proofs.WalkOrder
import RegexAutomaton.Proofs.Matching
import RegexAutomaton.Proofs.StackHeight
import RegexAutomaton.Proofs.Revision
import RegexAutomaton.Proofs.RowNames
import RegexAutomaton.Proofs.FaultPositions
import RegexAutomaton.Proofs.SpareOperands
import RegexAutomaton.Proofs.Insertion
import RegexAutomaton.Proofs.Lookup
import RegexAutomaton.Proofs.ReadingBack
import RegexAutomaton.Proofs.QuotedText
import RegexAutomaton.Proofs.Reporting
