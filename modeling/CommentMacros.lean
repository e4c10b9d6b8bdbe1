import CommentMacros.Call
import CommentMacros.Comment
import CommentMacros.Definition
import CommentMacros.Expansion
import CommentMacros.Failure
import CommentMacros.Frame
import CommentMacros.Hole
import CommentMacros.Job
import CommentMacros.MacroTable
import CommentMacros.Main
import CommentMacros.Mask.Fault
import CommentMacros.Mask.Parser
import CommentMacros.Mask.Pattern
import CommentMacros.Notice
import CommentMacros.Occurrence
import CommentMacros.Options.Basic
import CommentMacros.Options.Parser
import CommentMacros.Options.UsageError
import CommentMacros.Path
import CommentMacros.Program
import CommentMacros.Proofs.AloofMacros
import CommentMacros.Proofs.ChangedLines
import CommentMacros.Proofs.ColonArgument
import CommentMacros.Proofs.ColonValue
import CommentMacros.Proofs.CounterShift
import CommentMacros.Proofs.Declaration
import CommentMacros.Proofs.DeclaredTable
import CommentMacros.Proofs.Display
import CommentMacros.Proofs.DryRun
import CommentMacros.Proofs.Expansion
import CommentMacros.Proofs.FailedCall
import CommentMacros.Proofs.FailedSource
import CommentMacros.Proofs.FirstOccurrence
import CommentMacros.Proofs.GroupedNumeral
import CommentMacros.Proofs.Indices
import CommentMacros.Proofs.JobFiles
import CommentMacros.Proofs.LineStructure
import CommentMacros.Proofs.Lines
import CommentMacros.Proofs.Listing
import CommentMacros.Proofs.NoRollback
import CommentMacros.Proofs.Occurrence
import CommentMacros.Proofs.OpenerChoice
import CommentMacros.Proofs.OptionValue
import CommentMacros.Proofs.Preserved
import CommentMacros.Proofs.PrintedDefinition
import CommentMacros.Proofs.Progress
import CommentMacros.Proofs.ReplacedCall
import CommentMacros.Proofs.Rewrites
import CommentMacros.Proofs.Runs
import CommentMacros.Proofs.SecondRun
import CommentMacros.Proofs.Segments
import CommentMacros.Proofs.SingleCall
import CommentMacros.Proofs.Site
import CommentMacros.Proofs.Skeleton
import CommentMacros.Proofs.SlicedExpansion
import CommentMacros.Proofs.Stages
import CommentMacros.Proofs.Template
import CommentMacros.Proofs.Turns
import CommentMacros.Proofs.Utf8
import CommentMacros.Session
import CommentMacros.Sweep
import CommentMacros.Template
import CommentMacros.Text.Alphanumeric
import CommentMacros.Text.Basic
import CommentMacros.Text.Blank
import CommentMacros.Text.Decimal
import CommentMacros.Text.Lines
import CommentMacros.Text.Offset
import CommentMacros.Text.Similarity
import CommentMacros.Text.Visible
import CommentMacros.Tree.Basic
import CommentMacros.Tree.Create
import CommentMacros.Tree.Resolve
import CommentMacros.Utf8
