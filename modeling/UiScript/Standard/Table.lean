/-
The standard table: what programs can reach unless the host offers
something else.
-/
import UiScript.Execution.Table
import UiScript.Policy.Basic
import UiScript.Standard.Content
import UiScript.Standard.Layout
import UiScript.Standard.Modifiers

namespace UiScript.Standard

/-- The operations, by name. -/
def operations : List (String × (Invocation → Checked Value)) := [
  ("vstack", vstack),
  ("hstack", hstack),
  ("zstack", zstack),
  ("card", card),
  ("list", list),
  ("text", text),
  ("heading", heading),
  ("paragraph", paragraph),
  ("button", button),
  ("link", link),
  ("image", image),
  ("divider", divider),
  ("spacer", spacer),
  ("badge", badge),
  ("list_item", listItem)]

/-- The modifiers, by name. -/
def modifiers : List (String × (Element → Invocation → Checked Value)) := [
  ("font_size", fontSize),
  ("font_weight", fontWeight),
  ("text_color", textColor),
  ("background", background),
  ("bold", bold),
  ("italic", italic),
  ("underline", underline),
  ("padding", padding),
  ("margin", margin),
  ("corner_radius", cornerRadius),
  ("border", border),
  ("shadow", shadow),
  ("opacity", opacity),
  ("frame", frame),
  ("hidden", hidden),
  ("css_class", cssClass),
  ("id", identity),
  ("aria_label", ariaLabel)]

/-- The standard table. It has no state: no handler leaves anything behind. -/
def table : Table Unit where
  operations := operations.map fun o => (o.1, fun inv => Action.ofChecked (o.2 inv))
  modifiers := modifiers.map fun m => (m.1, fun e inv => Action.ofChecked (m.2 e inv))

/-- The names of the standard table, in ascending order. -/
def names : List String := table.names

/-- The policy that allows the standard names only. -/
def policy : Policy := .listing names

end UiScript.Standard
