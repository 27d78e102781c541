/-
A table that keeps a record of what is called, for watching the order in
which programs are executed. Its state is the record, oldest entry first;
handlers check their arguments first, and a call that fails its checks
leaves no entry.
-/
import UiScript.Execution.Table

namespace UiScript.Recorder

/-- What was called, in order. -/
abbrev Record := List String

/-- An action that may add to the record. -/
abbrev Recorded (α : Type) := Action Record α

/-- Adds an entry to the record. -/
def log (entry : String) : Recorded Unit := modify (· ++ [entry])

/-- Looks at an invocation, which leaves the record alone. -/
def check {α : Type} (result : Checked α) : Recorded α := Action.ofChecked result

-- ============================================================== operations

/-- `text(content)` -/
def text (inv : Invocation) : Recorded Value := do
  let content ← check (do
    inv.rejectBlock
    inv.expectMaxPositional 1
    inv.expectNamedOnly []
    inv.positionalText 0)
  log s!"text:{content}"
  pure (.element ((Element.ofTag "span").withText content))

/-- `box(values..., spacing: 4) { ... }`: the values come before the block. -/
def box (inv : Invocation) : Recorded Value := do
  check (inv.expectNamedOnly ["spacing"])
  log "box"
  let plain := Element.ofTag "div"
  let spaced := match ← check (inv.namedKeyword "spacing") with
    | some spacing => plain.addClass s!"gap-{spacing}"
    | none => plain
  pure (.element
    (spaced.withChildren (inv.positional.flatMap Value.elements ++ inv.childElements)))

/-- `pair`: two elements side by side. -/
def pair (inv : Invocation) : Recorded Value := do
  check inv.rejectBlock
  log "pair"
  pure (.fragment [(Element.ofTag "span").withText "1", (Element.ofTag "span").withText "2"])

/-- `echo(v)` is `v`. -/
def echo (inv : Invocation) : Recorded Value := do
  check (inv.expectPositional 1)
  log "echo"
  pure (inv.positional.headD .nil)

/-- `nothing` is nil. -/
def nothing (_ : Invocation) : Recorded Value := do
  log "nothing"
  pure .nil

/-- `both`, called without a receiver. -/
def both (_ : Invocation) : Recorded Value := do
  log "both"
  pure (.element (.ofTag "both"))

-- =============================================================== modifiers

/-- `padding(4)`, which must not start with a minus sign. -/
def padding (e : Element) (inv : Invocation) : Recorded Value := do
  let size ← check (do
    inv.rejectBlock
    inv.expectPositional 1
    let size ← inv.positionalKeyword 0
    if ['-'].isPrefixOf size.toList then
      Invocation.fail (.invalidValue "padding" (Invocation.positionalLabel 0)
        "must not be negative")
    else pure size)
  log s!"padding:{size}"
  pure (.element (e.addClass s!"p-{size}"))

/-- `tag(:name)` -/
def tag (e : Element) (inv : Invocation) : Recorded Value := do
  let name ← check (inv.positionalName 0)
  log s!"tag:{name}"
  pure (.element (e.setAttr "data-tag" name))

/-- `split { ... }`: the element twice, then the block. -/
def split (e : Element) (inv : Invocation) : Recorded Value := do
  log "split"
  pure (.fragment (e :: e :: inv.childElements))

/-- `vanish` leaves nothing of an element. -/
def vanish (_ : Element) (_ : Invocation) : Recorded Value := do
  log "vanish"
  pure .nil

/-- `label` leaves the text of an element. -/
def label (e : Element) (_ : Invocation) : Recorded Value := do
  log "label"
  pure (.string e.textContent)

/-- `both`, called on an element. -/
def bothOn (e : Element) (_ : Invocation) : Recorded Value := do
  log "both!"
  pure (.element (e.addClass "both"))

/-- The table that keeps a record. -/
def table : Table Record where
  operations := [("text", text), ("box", box), ("pair", pair), ("echo", echo),
    ("nothing", nothing), ("both", both)]
  modifiers := [("padding", padding), ("tag", tag), ("split", split), ("vanish", vanish),
    ("label", label), ("both", bothOn)]

end UiScript.Recorder
