import Parlance.Arguments
import Parlance.Arguments.Form
import Parlance.Arrange
import Parlance.Command
import Parlance.Command.Verify
import Parlance.CommandLine.Report
import Parlance.CommandLine.Request
import Parlance.Completion
import Parlance.Config
import Parlance.Config.Form
import Parlance.Decimal.Layout
import Parlance.Decimal.Reading
import Parlance.Decimal.Shortest
import Parlance.Definition
import Parlance.Definition.Form
import Parlance.Document
import Parlance.Document.Plain
import Parlance.Document.View
import Parlance.Duration
import Parlance.Engine.Dispatch
import Parlance.Engine.Gate
import Parlance.Engine.Registry
import Parlance.Engine.Suggest
import Parlance.Engine.Tree
import Parlance.File
import Parlance.Flag
import Parlance.Json.Reader
import Parlance.Json.Writer
import Parlance.Main
import Parlance.Matcher
import Parlance.NameMap
import Parlance.Parameter
import Parlance.Proofs.Engine.Reached
import Parlance.Proofs.Selection.Finding
import Parlance.Proofs.Slot.Required
import Parlance.Proofs.Usage.Numbering
import Parlance.RegistrationError
import Parlance.Resolution
import Parlance.ResolutionError
import Parlance.Resolvers
import Parlance.Selection
import Parlance.Slot
import Parlance.Source
import Parlance.Text.Blank
import Parlance.Text.CaseTable
import Parlance.Text.Cut
import Parlance.Text.Digit
import Parlance.Text.Fold
import Parlance.Text.Lower
import Parlance.TokenSplit
import Parlance.Usage
import Parlance.Usage.Element
import Parlance.Value
import Parlance.ValueType
import Parlance.Word
import Parlance.Yaml.Reader
import Parlance.Yaml.Scalar
import Parlance.Yaml.Token
import Parlance.Yaml.Writer
import Parlance.Proofs.Resolution.Agreement
import Parlance.Proofs.Engine.Preparing
import Parlance.Proofs.Resolution.StoredNames
import Parlance.Proofs.Engine.Permissions
import Parlance.Proofs.Text.Fields
import Parlance.Proofs.Element.Writing
import Parlance.Proofs.Usage.RoundTrip
import Parlance.Proofs.Command.Path
import Parlance.Proofs.Selection.Asking
import Parlance.Proofs.TokenSplit.Parts
import Parlance.Proofs.Resolution.Reading
import Parlance.Proofs.Engine.MovedSwitch
import Parlance.Proofs.Completion.Advancing
import Parlance.Proofs.Completion.Expecting
import Parlance.Proofs.Completion.Answer
import Parlance.Proofs.Completion.Offering
import Parlance.Proofs.Slot.BackFill
import Parlance.Proofs.Completion.FixedWords
import Parlance.Proofs.TokenSplit.Occurrences
import Parlance.Proofs.Completion.FlagValues
import Parlance.Proofs.ValueType.LetterCase
import Parlance.Proofs.ValueType.Overlap
import Parlance.Proofs.Usage.Ambiguity
import Parlance.Proofs.Command.Passage
import Parlance.Proofs.Command.WellFormed
import Parlance.Proofs.Command.FlagNames
import Parlance.Proofs.Selection.Noting
import Parlance.Proofs.Selection.Accepting
import Parlance.Proofs.Selection.Covering
import Parlance.Proofs.Selection.LastMatched
import Parlance.Proofs.Selection.Priority
import Parlance.Proofs.Command.Effective
import Parlance.Proofs.Engine.Registration
import Parlance.Proofs.Completion.Visibility
import Parlance.Proofs.Engine.Running
import Parlance.Proofs.Engine.Accounting
import Parlance.Proofs.Definition.Building
import Parlance.Proofs.Engine.Served
import Parlance.Proofs.Selection.SiblingOrder
import Parlance.Proofs.TokenSplit.LetterCase
import Parlance.Proofs.Selection.LetterCase
import Parlance.Proofs.Resolvers.LetterCase
import Parlance.Proofs.Resolution.LetterCase
import Parlance.Command.Relink
import Parlance.Proofs.Slot.Dealing
import Parlance.Proofs.Slot.Supply
import Parlance.Proofs.Slot.Partition
import Parlance.Proofs.Resolution.Outcome
import Parlance.Proofs.Command.Relinking
import Parlance.Proofs.Rows
import Parlance.Proofs.Document.Reordered
import Parlance.Proofs.Definition.RoundTrip
import Parlance.Proofs.TokenSplit.Partition
import Parlance.Proofs.Resolution.Bounds
import Parlance.Proofs.Resolution.MovedBlock
import Parlance.Proofs.Duration.Reading
import Parlance.Proofs.Text.Natural
import Parlance.Proofs.Duration.Writing
import Parlance.Proofs.Resolvers.Conversion
import Parlance.Proofs.Completion.Narrowing
import Parlance.Proofs.Slot.Access
import Parlance.Proofs.Command.Preorder
import Parlance.Proofs.Command.Address
import Parlance.Proofs.Engine.Listing
import Parlance.Proofs.Element.Grammar
import Parlance.Proofs.Usage.Grammar
import Parlance.Proofs.Completion.Placement
