/-
The modifiers: each gives back the element that it was called on, with
classes or one attribute added.
-/
import UiScript.Standard.Checks
import UiScript.Text.Blank

namespace UiScript.Standard

variable (e : Element) (inv : Invocation)

-- ============================================================ kinds of them

/-- So many positional arguments, no named ones, no block. -/
def expectOnly (count : Nat) : Checked Unit := do
  inv.rejectBlock
  inv.expectPositional count
  inv.expectNamedOnly []

/-- A modifier without arguments: it adds a class. -/
def flagClass (c : String) : Checked Value := do
  expectOnly inv 0
  pure (.element (e.addClass c))

/-- A modifier with one argument: it adds the class `family-argument`. -/
def familyClass (family : String) : Checked Value := do
  expectOnly inv 1
  let token ← positionalToken inv 0
  pure (.element (e.addClass s!"{family}-{token}"))

/-- The keys for edges, and what each adds to the family. -/
def edges : List (String × String) :=
  [("horizontal", "x"), ("vertical", "y"), ("top", "t"), ("bottom", "b"), ("leading", "l"),
    ("trailing", "r")]

/-- The element with a class for one edge, if that edge is given. -/
def addEdge (family : String) (e : Element) (edge : String × String) : Checked Element := do
  match ← namedToken inv edge.1 with
  | none => pure e
  | some token => pure (e.addClass s!"{family}{edge.2}-{token}")

/-- Space around an element: on all edges, or on each edge that is given. -/
def edgeClasses (family : String) : Checked Value := do
  inv.rejectBlock
  inv.expectMaxPositional 1
  inv.expectNamedOnly (edges.map Prod.fst)
  if inv.positional.isEmpty && inv.named.isEmpty then
    Invocation.fail (.missingArgument inv.method (Invocation.positionalLabel 0))
  else
    let even ← (if inv.positional.isEmpty then pure e else do
      let token ← positionalToken inv 0
      pure (e.addClass s!"{family}-{token}"))
    Value.element <$> edges.foldlM (addEdge inv family) even

-- ======================================================== type and colour

/-- `font_size(:lg)` -/
def fontSize : Checked Value := familyClass e inv "text"

/-- `font_weight(:medium)` -/
def fontWeight : Checked Value := familyClass e inv "font"

/-- `text_color("gray-600")` -/
def textColor : Checked Value := familyClass e inv "text"

/-- `background("white")` -/
def background : Checked Value := familyClass e inv "bg"

/-- `bold` -/
def bold : Checked Value := flagClass e inv "font-bold"

/-- `italic` -/
def italic : Checked Value := flagClass e inv "italic"

/-- `underline` -/
def underline : Checked Value := flagClass e inv "underline"

-- =================================================================== boxes

/-- `padding(4)` or `padding(horizontal: 2, top: 4)` -/
def padding : Checked Value := edgeClasses e inv "p"

/-- `margin(4)` or `margin(horizontal: :auto)` -/
def margin : Checked Value := edgeClasses e inv "m"

/-- `corner_radius(:lg)` -/
def cornerRadius : Checked Value := familyClass e inv "rounded"

/-- `border`, `border(2)` or `border(color: "gray-200")` -/
def border : Checked Value := do
  inv.rejectBlock
  inv.expectMaxPositional 1
  inv.expectNamedOnly ["color"]
  let framed ← (if inv.positional.isEmpty then pure (e.addClass "border") else do
    let width ← positionalToken inv 0
    pure (e.addClass s!"border-{width}"))
  match ← namedToken inv "color" with
  | none => pure (.element framed)
  | some color => pure (.element (framed.addClass s!"border-{color}"))

/-- `shadow` or `shadow(:lg)` -/
def shadow : Checked Value :=
  if inv.positional.isEmpty then flagClass e inv "shadow" else familyClass e inv "shadow"

/-- A whole percentage. -/
def percentage? (n : Number) : Option Int := n.toInt?.filter fun p => 0 ≤ p && p ≤ 100

/-- `opacity(50)` -/
def opacity : Checked Value := do
  expectOnly inv 1
  match percentage? (← inv.positionalNumber 0) with
  | some percent => pure (.element (e.addClass s!"opacity-{percent}"))
  | none =>
    Invocation.fail (.invalidValue "opacity" (Invocation.positionalLabel 0)
      "must be an integer percentage from 0 to 100")

/-- The element with a class for a measure, if it is given. -/
def addMeasure (family key : String) (e : Element) : Option String → Checked Element
  | none => pure e
  | some value => do
    let token ← styleToken inv key value
    pure (e.addClass s!"{family}-{token}")

/-- `frame(width: :full, height: 64)`, with one of the two at least -/
def frame : Checked Value := do
  inv.rejectBlock
  inv.expectPositional 0
  inv.expectNamedOnly ["width", "height"]
  let width ← inv.namedKeyword "width"
  let height ← inv.namedKeyword "height"
  if width.isNone && height.isNone then Invocation.fail (.missingArgument "frame" "width")
  else
    let wide ← addMeasure inv "w" "width" e width
    Value.element <$> addMeasure inv "h" "height" wide height

/-- `hidden` -/
def hidden : Checked Value := flagClass e inv "hidden"

-- ============================================================== attributes

/-- The element with a class, which has to be a style token. -/
def addCheckedClass (e : Element) (c : String) : Checked Element :=
  e.addClass <$> styleToken inv (Invocation.positionalLabel 0) c

/-- `css_class("card-compact md:flex")`; each class is checked on its own. -/
def cssClass : Checked Value := do
  expectOnly inv 1
  let classes ← inv.positionalName 0
  match Text.words classes with
  | [] =>
    Invocation.fail (.invalidValue "css_class" (Invocation.positionalLabel 0) "no class given")
  | classes => Value.element <$> classes.foldlM (addCheckedClass inv) e

/-- `id(:greeting)` -/
def identity : Checked Value := do
  expectOnly inv 1
  let name ← styleToken inv (Invocation.positionalLabel 0) (← inv.positionalName 0)
  pure (.element (e.setAttr "id" name))

/-- `aria_label("Close the dialog")` -/
def ariaLabel : Checked Value := do
  expectOnly inv 1
  let label ← attributeText inv (Invocation.positionalLabel 0) (← inv.positionalString 0)
  pure (.element (e.setAttr "aria-label" label))

end UiScript.Standard
