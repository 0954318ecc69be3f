import WorkflowLang.Files.FileTree
import WorkflowLang.Main
import WorkflowLang.Report
import WorkflowLang.Session
import WorkflowLang.Uri
import WorkflowLang.Proofs.Checks.Cycles
import WorkflowLang.Proofs.CommandLine.Formatting
import WorkflowLang.Proofs.Compilation.ActionIndex
import WorkflowLang.Proofs.Compilation.Excerpts
import WorkflowLang.Proofs.Compilation.SyntaxErrors
import WorkflowLang.Proofs.Document.Mapping
import WorkflowLang.Proofs.Editor.Navigation
import WorkflowLang.Proofs.Editor.NewNames
import WorkflowLang.Proofs.Editor.StringEdits
import WorkflowLang.Proofs.Layout.Comments
import WorkflowLang.Proofs.Layout.Findings
import WorkflowLang.Proofs.Layout.Independence
import WorkflowLang.Proofs.Session.Freshness
import WorkflowLang.Proofs.Session.Retention
import WorkflowLang.Proofs.Token.Placement
import WorkflowLang.Proofs.Token.Faults
import WorkflowLang.Proofs.Token.LineBreaks
import WorkflowLang.Proofs.Tree.Accounting
import WorkflowLang.Proofs.Editor.Cursor
import WorkflowLang.Proofs.Tree.Shape
import WorkflowLang.Proofs.Document.Moving
import WorkflowLang.Proofs.Editor.Undoing
import WorkflowLang.Proofs.Editor.Unquoting
import WorkflowLang.Proofs.Checks.Reordering
import WorkflowLang.Proofs.Compilation.Joining
import WorkflowLang.Proofs.Compilation.BlockOrder
import WorkflowLang.Proofs.Editor.Targets
import WorkflowLang.Proofs.Compilation.Silence
import WorkflowLang.Proofs.Checks.AddressForms
import WorkflowLang.Proofs.Checks.ActionLimit
import WorkflowLang.Proofs.Checks.SecretLimit
import WorkflowLang.Proofs.Layout.CommentPlaces
import WorkflowLang.Proofs.Layout.LaidOut
import WorkflowLang.Proofs.Editor.Reformatting
import WorkflowLang.Proofs.Tree.LeastCovers
import WorkflowLang.Proofs.Tree.Closing
import WorkflowLang.Proofs.Editor.KeyOffers
import WorkflowLang.Proofs.Editor.Outlining
import WorkflowLang.Proofs.Text.Context
import WorkflowLang.Proofs.Token.Rejoining
import WorkflowLang.Proofs.Compilation.StatementOrder
import WorkflowLang.Proofs.Report.Styling
