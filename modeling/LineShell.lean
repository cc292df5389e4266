import LineShell.Hexdump
import LineShell.Columns
import LineShell.Colour
import LineShell.Log.LineCutter
import LineShell.Json.Writer
import LineShell.Text.Template
import LineShell.Edit.Line
import LineShell.Edit.KeyDecoder
import LineShell.Files.Fault
import LineShell.Edit.Editor
import LineShell.Command.Table
import LineShell.Command.Invocation
import LineShell.Yaml.Token
import LineShell.Yaml.Value
import LineShell.Json.Reader
import LineShell.Settings.File
import LineShell.Log.Event
import LineShell.Options
import LineShell.Input.Source
import LineShell.Program
import LineShell.Completion
import LineShell.Session.EventLoop
import LineShell.Demo
import LineShell.Session.Beginning
import LineShell.Main
import LineShell.Proofs.Shown
import LineShell.Proofs.Placed
import LineShell.Proofs.Kept
import LineShell.Proofs.Cuts
import LineShell.Proofs.Later
import LineShell.Proofs.Advances
import LineShell.Proofs.Consumers
import LineShell.Proofs.Prompts
import LineShell.Proofs.Release
import LineShell.Proofs.Isolation
import LineShell.Proofs.Courses
import LineShell.Proofs.Silence
import LineShell.Proofs.Removed
import LineShell.Proofs.Latch
import LineShell.Proofs.Leftover
import LineShell.Proofs.Sources
import LineShell.Proofs.Delivery
import LineShell.Proofs.Remembered
import LineShell.Proofs.Unpainted
import LineShell.Proofs.Tinted
import LineShell.Proofs.TintedKeys
import LineShell.Proofs.Painting
import LineShell.Proofs.FailedStart
import LineShell.Proofs.CommandWord
import LineShell.Proofs.Typing
import LineShell.Proofs.Pasting
import LineShell.Proofs.Leaving
import LineShell.Proofs.Parts
import LineShell.Proofs.Strokes
import LineShell.Proofs.Walking
import LineShell.Proofs.OneRow
import LineShell.Proofs.FreshLine
import LineShell.Proofs.Completing
import LineShell.Proofs.Suspension
import LineShell.Proofs.Offered
import LineShell.Proofs.Inside
import LineShell.Proofs.Enumerating
import LineShell.Proofs.Shadowed
import LineShell.Proofs.Menus
import LineShell.Proofs.Dumps
import LineShell.Proofs.Dispatching
import LineShell.Proofs.Escapes
import LineShell.Proofs.InColumns
import LineShell.Proofs.WrittenLines
import LineShell.Proofs.Listing
import LineShell.Proofs.Documents
import LineShell.Proofs.Layers
import LineShell.Proofs.Truncation
import LineShell.Proofs.Loading
