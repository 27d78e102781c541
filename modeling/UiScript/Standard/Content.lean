/-
The operations that make content: text, headings, buttons, links, images
and other leaves. A leaf takes one argument, its content, and no block;
numbers count as content.
-/
import UiScript.Standard.Checks

namespace UiScript.Standard

variable (inv : Invocation)

/-- The content of a leaf with the given named arguments. -/
def leafContent (keys : List String) : Checked String := do
  inv.rejectBlock
  inv.expectMaxPositional 1
  inv.expectNamedOnly keys
  inv.positionalText 0

/-- A leaf that is nothing but its content, in an element with the given tag. -/
def leaf (tag : String) : Checked Value := do
  let content ← leafContent inv []
  pure (.element ((Element.ofTag tag).withText content))

/-- An operation without arguments and without a block, which makes this
element. -/
def constant (e : Element) : Checked Value := do
  inv.rejectBlock
  inv.expectPositional 0
  inv.expectNamedOnly []
  pure (.element e)

/-- `text("Hello")` -/
def text : Checked Value := leaf inv "span"

/-- `paragraph("Hello")` -/
def paragraph : Checked Value := leaf inv "p"

/-- The level of a heading: a whole number from 1 to 6. -/
def headingLevel? (n : Number) : Option Int := n.toInt?.filter fun level => 1 ≤ level && level ≤ 6

/-- `heading("Title", level: 2)`; without a level it is the first. -/
def heading : Checked Value := do
  let content ← leafContent inv ["level"]
  let level ← (match ← inv.namedNumber "level" with
    | none => pure 1
    | some n =>
      match headingLevel? n with
      | some level => pure level
      | none =>
        Invocation.fail (.invalidValue "heading" "level" "must be an integer from 1 to 6"))
  pure (.element ((Element.ofTag s!"h{level}").withText content))

/-- `button("Save", variant: :primary, disabled: true)` -/
def button : Checked Value := do
  let label ← leafContent inv ["variant", "disabled"]
  let plain := (((Element.ofTag "button").setAttr "type" "button").addClass "btn").withText label
  let styled ← (match ← inv.namedName "variant" with
    | none => pure plain
    | some variant => do
      let variant ← styleToken inv "variant" variant
      pure (plain.addClass s!"btn-{variant}"))
  if (← inv.namedBoolean "disabled") == some true then
    pure (.element (styled.setAttr "disabled" "disabled"))
  else pure (.element styled)

/-- `link("Docs", href: "/docs")`; links to the web do not tell where they
come from. -/
def link : Checked Value := do
  let label ← leafContent inv ["href"]
  let href ← safeUrl inv "href" (← inv.requiredNamedString "href")
  let e := ((Element.ofTag "a").setAttr "href" href).withText label
  if "http".toList.isPrefixOf href.toList then
    pure (.element (e.setAttr "rel" "noopener noreferrer"))
  else pure (.element e)

/-- `image("/logo.png", alt: "Logo")`; the description is always there. -/
def image : Checked Value := do
  inv.rejectBlock
  inv.expectPositional 1
  inv.expectNamedOnly ["alt"]
  let source ← safeUrl inv (Invocation.positionalLabel 0) (← inv.positionalString 0)
  let alt ← attributeText inv "alt" ((← inv.namedString "alt").getD "")
  pure (.element (((Element.ofTag "img").setAttr "src" source).setAttr "alt" alt))

/-- `divider` -/
def divider : Checked Value := constant inv (.ofTag "hr")

/-- `spacer` takes up the space that is left. -/
def spacer : Checked Value := constant inv ((Element.ofTag "div").addClass "flex-1")

/-- `badge(3)` -/
def badge : Checked Value := do
  let content ← leafContent inv []
  pure (.element (((Element.ofTag "span").addClass "badge").withText content))

/-- `list_item("A")` or `list_item do ... end` -/
def listItem : Checked Value := do
  inv.expectMaxPositional 1
  inv.expectNamedOnly []
  let plain := Element.ofTag "li"
  let item ← (if inv.positional.isEmpty then pure plain
    else plain.withText <$> inv.positionalText 0)
  pure (.element (item.withChildren inv.childElements))

end UiScript.Standard
