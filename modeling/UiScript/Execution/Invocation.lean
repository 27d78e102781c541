/-
Invocations: what a handler is given. All arguments are evaluated; the
accessors of this file hand them out and fail with the name of the method
and of the argument. A named argument that is nil counts as left out.
-/
import UiScript.Execution.Failure

namespace UiScript

/-- The result of looking at an invocation, or of handling one. -/
abbrev Checked (α : Type) := Except ExecutionError α

/-- A call with its arguments evaluated. -/
structure Invocation where
  method : String
  positional : List Value
  /-- Keys and values, in the order of the source. -/
  named : List (String × Value)
  /-- What the block came to, if there was one. -/
  children : Option (List Element)
  span : Span
deriving DecidableEq

namespace Invocation

/-- Fails with a cause. -/
def fail {α : Type} (cause : ExecutionError.Cause) : Checked α := .error (.of cause)

/-- How messages name a positional argument; they count from one. -/
def positionalLabel (index : Nat) : String := s!"argument {index + 1}"

variable (inv : Invocation)

-- ================================================================ arguments

/-- A positional argument. -/
def positionalArg? (index : Nat) : Option Value := inv.positional[index]?

/-- A named argument. -/
def namedArg? (key : String) : Option Value := (inv.named.find? fun a => a.1 == key).map Prod.snd

/-- A named argument, unless it is nil. -/
def givenArg? (key : String) : Option Value :=
  match inv.namedArg? key with
  | some .nil => none
  | arg => arg

/-- The elements of the block, none if there was no block. -/
def childElements : List Element := inv.children.getD []

/-- The invocation without its block. -/
def withoutChildren : Invocation := { inv with children := none }

-- =================================================================== shape

/-- Exactly so many positional arguments. -/
def expectPositional (count : Nat) : Checked Unit :=
  if inv.positional.length = count then .ok ()
  else fail (.wrongCount inv.method count inv.positional.length)

/-- At most so many positional arguments. -/
def expectMaxPositional (most : Nat) : Checked Unit :=
  if inv.positional.length ≤ most then .ok ()
  else fail (.wrongCount inv.method most inv.positional.length)

/-- No named arguments but those with the given keys. -/
def expectNamedOnly (keys : List String) : Checked Unit :=
  match inv.named.find? fun a => !keys.contains a.1 with
  | some (key, _) => fail (.unexpectedArgument inv.method key)
  | none => .ok ()

/-- No block. -/
def rejectBlock : Checked Unit :=
  if inv.children.isSome then fail (.blockNotAccepted inv.method) else .ok ()

-- ======================================================= kinds of arguments

/-- A string. -/
def asString? : Value → Option String
  | .string s => some s
  | _ => none

/-- Content to display: a string, or a number as text. -/
def asText? : Value → Option String
  | .string s => some s
  | .number n => some n.text
  | _ => none

/-- A number. -/
def asNumber? : Value → Option Number
  | .number n => some n
  | _ => none

/-- The name of a symbol, or a string. -/
def asName? : Value → Option String
  | .symbol s => some s
  | .string s => some s
  | _ => none

/-- A design token: a symbol, a string, or a whole number as text. -/
def asKeyword? : Value → Option String
  | .symbol s => some s
  | .string s => some s
  | .number n => n.toInt?.map toString
  | _ => none

/-- A boolean. -/
def asBoolean? : Value → Option Bool
  | .boolean b => some b
  | _ => none

-- =============================================================== accessors

/-- A positional argument that `view` can make something of; `expected` says
of what. -/
def positionalAs {α : Type} (view : Value → Option α) (expected : String) (index : Nat) :
    Checked α :=
  match inv.positionalArg? index with
  | none => fail (.missingArgument inv.method (positionalLabel index))
  | some value =>
    match view value with
    | some a => .ok a
    | none => fail (.foundValue inv.method (positionalLabel index) expected value)

/-- A named argument that `view` can make something of, if it is given. -/
def namedAs {α : Type} (view : Value → Option α) (expected key : String) : Checked (Option α) :=
  match inv.givenArg? key with
  | none => .ok none
  | some value =>
    match view value with
    | some a => .ok (some a)
    | none => fail (.foundValue inv.method key expected value)

/-- A positional string. -/
def positionalString (index : Nat) : Checked String := inv.positionalAs asString? "a string" index

/-- A positional string, if it is given and not nil. -/
def optionalPositionalString (index : Nat) : Checked (Option String) :=
  match inv.positionalArg? index with
  | none | some .nil => .ok none
  | some _ => (inv.positionalString index).map some

/-- Positional content. -/
def positionalText (index : Nat) : Checked String := inv.positionalAs asText? "a string" index

/-- A positional number. -/
def positionalNumber (index : Nat) : Checked Number := inv.positionalAs asNumber? "a number" index

/-- A positional symbol or string. -/
def positionalName (index : Nat) : Checked String :=
  inv.positionalAs asName? "a symbol or string" index

/-- A positional design token. -/
def positionalKeyword (index : Nat) : Checked String :=
  inv.positionalAs asKeyword? "a symbol, string or integer" index

/-- A named string. -/
def namedString (key : String) : Checked (Option String) := inv.namedAs asString? "a string" key

/-- A named string that has to be given. -/
def requiredNamedString (key : String) : Checked String := do
  match ← inv.namedString key with
  | some s => pure s
  | none => fail (.missingArgument inv.method key)

/-- A named number. -/
def namedNumber (key : String) : Checked (Option Number) := inv.namedAs asNumber? "a number" key

/-- A named symbol or string. -/
def namedName (key : String) : Checked (Option String) :=
  inv.namedAs asName? "a symbol or string" key

/-- A named design token. -/
def namedKeyword (key : String) : Checked (Option String) :=
  inv.namedAs asKeyword? "a symbol, string or integer" key

/-- A named boolean. -/
def namedBoolean (key : String) : Checked (Option Bool) := inv.namedAs asBoolean? "a boolean" key

end Invocation

end UiScript
