import UiScript.Main
import UiScript.Recorder
import UiScript.Proofs.Containment
import UiScript.Proofs.Composition
import UiScript.Proofs.Scanning.Tiling
import UiScript.Proofs.Filtering
import UiScript.Proofs.Markup
import UiScript.Proofs.Content
import UiScript.Proofs.Grammar.Words
import UiScript.Proofs.Comments
import UiScript.Proofs.Vocabulary
import UiScript.Proofs.Location
import UiScript.Proofs.Order
import UiScript.Proofs.Blame
import UiScript.Proofs.Limits
import UiScript.Proofs.Height
import UiScript.Proofs.NamedArguments
import UiScript.Proofs.Excerpts
import UiScript.Proofs.Scanning.Alone
import UiScript.Proofs.Scanning.BlockComments
import UiScript.Proofs.Scanning.LineEndings
import UiScript.Proofs.Scanning.Literals
import UiScript.Proofs.Scanning.Numerals
import UiScript.Proofs.Scanning.Quoting
import UiScript.Proofs.Chains
import UiScript.Proofs.Policy.Names
import UiScript.Proofs.Policy.Patterns
import UiScript.Proofs.Shape
import UiScript.Proofs.Element.Attributes
import UiScript.Proofs.Element.Descent
import UiScript.Proofs.Lookup
import UiScript.Proofs.Json.Elements
import UiScript.Proofs.Rounding
import UiScript.Proofs.Agreement
import UiScript.Proofs.Options
import UiScript.Proofs.Reading.Progress
import UiScript.Proofs.Reading.Trail
