import LabelSelector.Cache
import LabelSelector.Cursor
import LabelSelector.Fault
import LabelSelector.LabelMap
import LabelSelector.Lexeme
import LabelSelector.Operator
import LabelSelector.Proofs.ByteOrder
import LabelSelector.Proofs.CacheTransparency
import LabelSelector.Proofs.CanonicalForm
import LabelSelector.Proofs.Checks
import LabelSelector.Proofs.Comparisons
import LabelSelector.Proofs.Concatenation
import LabelSelector.Proofs.Conjunction
import LabelSelector.Proofs.Consumption
import LabelSelector.Proofs.Courses
import LabelSelector.Proofs.CursorRuns
import LabelSelector.Proofs.Decomposition
import LabelSelector.Proofs.Grammar
import LabelSelector.Proofs.IntegerTexts
import LabelSelector.Proofs.LabelPairs
import LabelSelector.Proofs.Language
import LabelSelector.Proofs.Lexing
import LabelSelector.Proofs.OperatorLaws
import LabelSelector.Proofs.OwnKeys
import LabelSelector.Proofs.Parsing
import LabelSelector.Proofs.PinnedValues
import LabelSelector.Proofs.Positions
import LabelSelector.Proofs.Refusals
import LabelSelector.Proofs.RoundTrip
import LabelSelector.Proofs.Satisfiability
import LabelSelector.Proofs.Scanning
import LabelSelector.Proofs.Seams
import LabelSelector.Proofs.Sessions
import LabelSelector.Proofs.Slots
import LabelSelector.Proofs.Spellings
import LabelSelector.Proofs.TextFaults
import LabelSelector.Proofs.ValueLists
import LabelSelector.Reading
import LabelSelector.Requirement
import LabelSelector.Requirement.Order
import LabelSelector.Requirement.Parser
import LabelSelector.Requirement.Printer
import LabelSelector.Requirement.Satisfaction
import LabelSelector.Selector
import LabelSelector.Session
import LabelSelector.Text.Blank
import LabelSelector.Text.Identifier
import LabelSelector.Text.Integer
import LabelSelector.Token
import LabelSelector.ValueSet
