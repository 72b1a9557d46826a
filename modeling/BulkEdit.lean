import BulkEdit.Disk.Basic
import BulkEdit.Formatter.Command
import BulkEdit.Proofs.Command.Requests
import BulkEdit.Proofs.FileTree.Ancestry
import BulkEdit.Proofs.Filemod.Forgiveness
import BulkEdit.Proofs.Filemod.Walk
import BulkEdit.Proofs.Overlay.Applicability
import BulkEdit.Proofs.Overlay.Moves
import BulkEdit.Proofs.Path.Location
import BulkEdit.Proofs.Path.NormalForm
import BulkEdit.Proofs.Run.Composition
import BulkEdit.Proofs.Run.PreviewContent
import BulkEdit.Proofs.Run.Progress
import BulkEdit.Proofs.Run.Target
import BulkEdit.Proofs.Run.Untouched
import BulkEdit.Proofs.Selection.Listed
import BulkEdit.Proofs.Settings.Arguments
import BulkEdit.Proofs.Settings.Descriptors
import BulkEdit.Proofs.Source.Content
import BulkEdit.Proofs.Source.NormalForm
import BulkEdit.Proofs.Source.Scan
import BulkEdit.Proofs.Worker.Independence
import BulkEdit.Proofs.Worker.Isolation
import BulkEdit.Run.Runner
import BulkEdit.Script.Filemod
import BulkEdit.Script.Transform
import BulkEdit.Settings.Environment
