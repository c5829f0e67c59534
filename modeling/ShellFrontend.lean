import ShellFrontend.Error.Report
import ShellFrontend.Program.Log
import ShellFrontend.Proofs.Acceptance
import ShellFrontend.Proofs.BlankLines
import ShellFrontend.Proofs.BracedProgram
import ShellFrontend.Proofs.CaretPosition
import ShellFrontend.Proofs.ClosedBlocks
import ShellFrontend.Proofs.EndMarker
import ShellFrontend.Proofs.ErrorCauses
import ShellFrontend.Proofs.ErrorPosition
import ShellFrontend.Proofs.LineOffsets
import ShellFrontend.Proofs.OpenLevels
import ShellFrontend.Proofs.OperatorChain
import ShellFrontend.Proofs.ParsedTrees
import ShellFrontend.Proofs.Progress
import ShellFrontend.Proofs.RoundTrip
import ShellFrontend.Proofs.Segmentation
import ShellFrontend.Proofs.SourceOrder
import ShellFrontend.Proofs.TokenAgreement
import ShellFrontend.Proofs.TreeHeight
import ShellFrontend.Proofs.UniqueRendering
import ShellFrontend.Session
import ShellFrontend.Source.Cursor
import ShellFrontend.Tree.Render
import ShellFrontend.Tree.Same
