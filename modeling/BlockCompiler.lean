import BlockCompiler.Main
import BlockCompiler.CommandLine.FileTree
import BlockCompiler.Proofs.Expression.Denotation
import BlockCompiler.Proofs.Emission.Acyclic
import BlockCompiler.Proofs.Emission.Peripheral
import BlockCompiler.Proofs.Renumber.Emission
import BlockCompiler.Proofs.Emission.Termination
import BlockCompiler.Proofs.Emission.Body
import BlockCompiler.Proofs.Emission.Declaration
import BlockCompiler.Proofs.Diagnostic
import BlockCompiler.Proofs.Document.Index
import BlockCompiler.Proofs.Emission.Balanced
import BlockCompiler.Proofs.Emission.FileScope
import BlockCompiler.Proofs.Emit.Convey
import BlockCompiler.Proofs.Emit.Shown
import BlockCompiler.Proofs.Renumber.Board
import BlockCompiler.Proofs.Renumber.Disabled
import BlockCompiler.Proofs.Document.Variable
import BlockCompiler.Proofs.Emission.Buffer
import BlockCompiler.Proofs.Emission.Shown
import BlockCompiler.Proofs.Context.Calls
import BlockCompiler.Proofs.Workspace.Change
import BlockCompiler.Proofs.Document.Numbering
import BlockCompiler.Proofs.CommandLine.Run
import BlockCompiler.Proofs.Emission.Order
import BlockCompiler.Proofs.Emit.Clamp
import BlockCompiler.Proofs.Emit.Counting
import BlockCompiler.Proofs.Text.Unescape
import BlockCompiler.Proofs.Emit.Quoted
import BlockCompiler.Proofs.Emit.Constant
import BlockCompiler.Proofs.Emission.Agreement
import BlockCompiler.Proofs.Emission.Quotation
import BlockCompiler.Proofs.Variant.PinGroup
import BlockCompiler.Proofs.Emit.Repeated
import BlockCompiler.Proofs.Emission.Snippet
import BlockCompiler.Proofs.Text.Indent
import BlockCompiler.Proofs.Text.BlockComment
import BlockCompiler.Proofs.FileName
import BlockCompiler.Proofs.Emission.Temporary
import BlockCompiler.Proofs.Text.Parentheses
import BlockCompiler.Proofs.Emission.LiteralBody
