import EventScript.Main
import EventScript.Proofs.Bundle.RoundTrip
import EventScript.Proofs.Events.ActionTests
import EventScript.Proofs.Events.Bindings
import EventScript.Proofs.Events.GuardedCommands
import EventScript.Proofs.Events.LiveTests
import EventScript.Proofs.Grammar.CallForms
import EventScript.Proofs.Grammar.FindingLines
import EventScript.Proofs.Grammar.HiddenFaults
import EventScript.Proofs.Grammar.OptionalTerminators
import EventScript.Proofs.PassThrough.Statements
import EventScript.Proofs.Rendering.Comparisons
import EventScript.Proofs.Rendering.Descent
import EventScript.Proofs.Rendering.Membership
import EventScript.Proofs.Segments.Doubling
import EventScript.Proofs.Text.Literals
import EventScript.Proofs.Rendering.UnaryMarks
import EventScript.Proofs.Text.LiteralContents
import EventScript.Proofs.Bundle.Splitting
import EventScript.Proofs.Segments.Owners
import EventScript.Proofs.Text.Fillings
import EventScript.Proofs.Rendering.Declining
import EventScript.Proofs.Options.LastSettings
import EventScript.Proofs.Command.Outcomes
import EventScript.Proofs.Parser.Rewinding
import EventScript.Proofs.Rendering.TileScaling
