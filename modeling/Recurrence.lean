import Recurrence.Main
import Recurrence.Rule.Printer
import Recurrence.Proofs.Calendar.Months
import Recurrence.Proofs.Calendar.Seconds
import Recurrence.Proofs.Expansion.Cadence
import Recurrence.Proofs.Calendar.Clock
import Recurrence.Proofs.Expansion.Days
import Recurrence.Proofs.Expansion.Plan
import Recurrence.Proofs.Expansion.Filter
import Recurrence.Proofs.Expansion.Period
import Recurrence.Proofs.Expansion.Candidates
import Recurrence.Proofs.Expansion.Positions
import Recurrence.Proofs.Expansion.SubDaily
import Recurrence.Proofs.Expansion.Admission
import Recurrence.Proofs.Expansion.Lawful
import Recurrence.Proofs.Expansion.Visit
import Recurrence.Proofs.Expansion.Walk
import Recurrence.Proofs.Expansion.Sequence
import Recurrence.Proofs.Expansion.Order
import Recurrence.Proofs.Expansion.RuleSet
import Recurrence.Proofs.Expansion.Narrowing
import Recurrence.Proofs.Expansion.Restriction
import Recurrence.Proofs.Expansion.Capped
import Recurrence.Proofs.Expansion.Limited
import Recurrence.Proofs.Expansion.Overflow
import Recurrence.Proofs.Expansion.Ceiling
import Recurrence.Proofs.Text.Numeral
import Recurrence.Proofs.Text.Order
import Recurrence.Proofs.Calendar.Form
import Recurrence.Proofs.Calendar.Written
import Recurrence.Proofs.Expansion.Ending
import Recurrence.Proofs.Rule.Values
import Recurrence.Proofs.Rule.Parts
import Recurrence.Proofs.Rule.RoundTrip
import Recurrence.Proofs.OrderedSet
import Recurrence.Proofs.Text.Spelling
import Recurrence.Proofs.Text.Edits
import Recurrence.Proofs.Rule.Collection
import Recurrence.Proofs.Rule.Respelling
import Recurrence.Proofs.RuleSet.Lines
import Recurrence.Proofs.RuleSet.Rearrangement
import Recurrence.Proofs.Query
import Recurrence.Proofs.Expansion.Range
import Recurrence.Proofs.Calendar.Order
import Recurrence.Proofs.Expansion.Selection
import Recurrence.Proofs.Expansion.Occurs
import Recurrence.Proofs.Expansion.Rescaling
import Recurrence.Proofs.Expansion.Regrouping
import Recurrence.Proofs.Json.Text
import Recurrence.Proofs.Json.Parser
import Recurrence.Proofs.Answer
import Recurrence.Proofs.Expansion.Examined
import Recurrence.Proofs.Expansion.Numbering
import Recurrence.Proofs.Expansion.Counter
import Recurrence.Proofs.Expansion.Unreached
import Recurrence.Proofs.Settings.Load
import Recurrence.Proofs.CommandLine
