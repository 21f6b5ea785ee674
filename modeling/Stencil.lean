import Stencil.Main
import Stencil.World
import Stencil.Proofs.Marker.Comments
import Stencil.Proofs.Marker.Kinds
import Stencil.Proofs.Assembly.Spots
import Stencil.Proofs.Document.Binding
import Stencil.Proofs.Document.Filling
import Stencil.Proofs.Merge.Binding
import Stencil.Proofs.Merge.Content
import Stencil.Proofs.Document.Params
import Stencil.Proofs.Merge.Anchors
import Stencil.Proofs.Merge.Canonical
import Stencil.Proofs.Merge.Stable
import Stencil.Proofs.Backup.Manifest
import Stencil.Proofs.Disk.Frame
import Stencil.Proofs.Merge.Ownership
import Stencil.Proofs.Merge.History
import Stencil.Proofs.Run.Protocol
import Stencil.Proofs.Run.Confinement
import Stencil.Proofs.Undo.History
import Stencil.Proofs.Marker.Scanning
import Stencil.Proofs.Marker.Grammar
import Stencil.Proofs.Document.Segmentation
import Stencil.Proofs.NewPage.BindingComments
import Stencil.Proofs.NewPage.InSync
import Stencil.Proofs.Document.Verdict
import Stencil.Proofs.Undo.Interleaving
import Stencil.Proofs.Undo.Generations
import Stencil.Proofs.Discovery.Folders
import Stencil.Proofs.Merge.Values
import Stencil.Proofs.Merge.FixedPoints
import Stencil.Proofs.Merge.Encoding
import Stencil.Proofs.Run.UpToDate
import Stencil.Proofs.Run.SecondRun
import Stencil.Proofs.Text.Seams
import Stencil.Proofs.Diff.Patching
import Stencil.Proofs.CommandLine.Confinement
import Stencil.Proofs.Skeleton.Renaming
import Stencil.Proofs.Skeleton.Dropping
import Stencil.Proofs.Merge.Report
import Stencil.Proofs.Disk.Copying
import Stencil.Proofs.Undo.Partial
import Stencil.Proofs.Glob.Boundaries
import Stencil.Proofs.Discovery.Walk
import Stencil.Proofs.Discovery.Instances
import Stencil.Proofs.Run.Order
import Stencil.Proofs.Document.Checks
import Stencil.Proofs.Marker.Pieces
import Stencil.Proofs.NewPage.RoundTrip
import Stencil.Proofs.FrontEnd.Prompt
import Stencil.Proofs.Assembly.Counting
import Stencil.Proofs.Assembly.Indexes
