import BlockScript.Main
import BlockScript.Proofs.Script.Grammar
import BlockScript.Proofs.Script.Position
import BlockScript.Proofs.Text.Occurrence
import BlockScript.Proofs.Script.Tokens
import BlockScript.Proofs.Drawing.Replay
import BlockScript.Proofs.Program.Mistakes
import BlockScript.Proofs.Script.Joining
import BlockScript.Proofs.Drawing.Layout
import BlockScript.Proofs.Drawing.Capacity
import BlockScript.Proofs.Drawing.Painting
import BlockScript.Proofs.Number.Order
import BlockScript.Proofs.Drawing.Arrangement
import BlockScript.Proofs.Number.Whole
import BlockScript.Proofs.Drawing.WholeLayout
import BlockScript.Proofs.Output.Streaming
import BlockScript.Proofs.Drawing.BlockCount
import BlockScript.Proofs.Drawing.Limits
import BlockScript.Proofs.Files.JoinedPaths
import BlockScript.Proofs.Files.Entries
import BlockScript.Proofs.Files.Lookup
import BlockScript.Proofs.Files.Writing
import BlockScript.Proofs.Files.DirectoryNames
import BlockScript.Proofs.Program.Pictures
import BlockScript.Proofs.Number.Decimal
import BlockScript.Proofs.Number.Printing
import BlockScript.Proofs.Number.WholeNumeral
import BlockScript.Proofs.Drawing.DrawnSizes
import BlockScript.Proofs.Files.PathOrder
import BlockScript.Proofs.Files.Walk
import BlockScript.Proofs.Files.FoundScripts
import BlockScript.Proofs.Colour.Text
import BlockScript.Proofs.Output.Lines
import BlockScript.Proofs.Output.JsonText
import BlockScript.Proofs.Output.Lossless
import BlockScript.Proofs.Number.Grammar
import BlockScript.Proofs.Script.PropertyGrammar
import BlockScript.Proofs.Program.BuiltScript
import BlockScript.Proofs.Script.Overriding
import BlockScript.Proofs.Files.NewDirectories
import BlockScript.Proofs.Program.WrittenFiles
import BlockScript.Proofs.Program.WellFormedFiles
import BlockScript.Proofs.Output.Progress
import BlockScript.Proofs.Drawing.LineBreaks
import BlockScript.Proofs.Drawing.Growth
import BlockScript.Proofs.Text.LetterCase
import BlockScript.Proofs.Script.EitherCase
import BlockScript.Proofs.Script.Spacing
import BlockScript.Proofs.Colour.Hexadecimal
import BlockScript.Proofs.Colour.Canonical
import BlockScript.Proofs.Manifest.ExcludedDirectories
import BlockScript.Proofs.Program.NamedScripts
import BlockScript.Proofs.Program.ValidSettings
import BlockScript.Proofs.Program.WrittenPictures
import BlockScript.Proofs.Manifest.RoundTrip
import BlockScript.Proofs.Files.ShownPaths
