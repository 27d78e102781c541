/-
The operations that arrange elements: stacks, layers, cards and lists. What
the block comes to becomes the children, in order.
-/
import UiScript.Standard.Checks

namespace UiScript.Standard

/-- The direction in which a stack grows. -/
inductive Axis where
  | vertical
  | horizontal
deriving DecidableEq

namespace Axis

/-- The class for the direction. -/
def directionClass : Axis → String
  | .vertical => "flex-col"
  | .horizontal => "flex-row"

/-- What the classes for the space between children start with. -/
def spacingClass : Axis → String
  | .vertical => "space-y"
  | .horizontal => "space-x"

/-- The class for an alignment across the axis. -/
def alignmentClass? : Axis → String → Option String
  | _, "center" => some "items-center"
  | _, "stretch" => some "items-stretch"
  | _, "start" | .vertical, "leading" | .horizontal, "top" => some "items-start"
  | _, "end" | .vertical, "trailing" | .horizontal, "bottom" => some "items-end"
  | .horizontal, "baseline" => some "items-baseline"
  | _, _ => none

end Axis

variable (inv : Invocation)

/-- Children along an axis. -/
def stack (axis : Axis) : Checked Value := do
  inv.expectPositional 0
  inv.expectNamedOnly ["spacing", "alignment"]
  let plain := ((Element.ofTag "div").addClass "flex").addClass axis.directionClass
  let spaced := match ← namedToken inv "spacing" with
    | none => plain
    | some spacing => plain.addClass s!"{axis.spacingClass}-{spacing}"
  let aligned ← (match ← inv.namedName "alignment" with
    | none => pure spaced
    | some alignment =>
      match axis.alignmentClass? alignment with
      | some c => pure (spaced.addClass c)
      | none => refuse inv "alignment" s!"unknown alignment `{alignment}`")
  pure (.element (aligned.withChildren inv.childElements))

/-- `vstack(spacing: 4, alignment: :center) do ... end` -/
def vstack : Checked Value := stack inv .vertical

/-- `hstack(spacing: 4, alignment: :center) do ... end` -/
def hstack : Checked Value := stack inv .horizontal

/-- `zstack do ... end`: children on top of each other. -/
def zstack : Checked Value := do
  inv.expectPositional 0
  inv.expectNamedOnly []
  pure (.element (((Element.ofTag "div").addClass "relative").withChildren inv.childElements))

/-- `card(title: "Profile") do ... end`; the title is the first child. -/
def card : Checked Value := do
  inv.expectPositional 0
  inv.expectNamedOnly ["title"]
  let plain := (Element.ofTag "div").addClass "card"
  let titled ← (match ← inv.namedString "title" with
    | none => pure plain
    | some title => do
      let label ← attributeText inv "title" title
      let heading := ((Element.ofTag "h3").addClass "card-title").withText title
      pure ((plain.setAttr "aria-label" label).withChildren [heading]))
  pure (.element (titled.withChildren inv.childElements))

/-- `list do ... end`, or `list(ordered: true) do ... end` -/
def list : Checked Value := do
  inv.expectPositional 0
  inv.expectNamedOnly ["ordered"]
  let tag := if (← inv.namedBoolean "ordered") == some true then "ol" else "ul"
  pure (.element ((Element.ofTag tag).withChildren inv.childElements))

end UiScript.Standard
