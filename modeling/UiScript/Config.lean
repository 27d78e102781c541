/-
Configurations: the limits and switches of one interpreter. A configuration
starts from the standard one; variables of the environment override it, and
explicit settings override those.
-/
import UiScript.Decimal.Reading
import UiScript.Program.Parse
import UiScript.Text.Blank

namespace UiScript

/-- The limits and switches of an interpreter. -/
structure Config where
  /-- How many delimiters may be open at once. -/
  maxDepth : Nat
  /-- How many calls may be chained to one expression. -/
  maxChain : Nat
  /-- Whether string literals are put to the policy. -/
  strictLiterals : Bool
  /-- Whether any name may be called that is not on the denylist. -/
  denylistOnly : Bool
deriving DecidableEq, Inhabited

/-- A setting that cannot be read: the name of the setting, and what was given
for it. -/
inductive ConfigError where
  | badLimit (setting value : String)
  | badFlag (setting value : String)
deriving DecidableEq

/-- An error in words. -/
def ConfigError.message : ConfigError → String
  | .badLimit setting value => s!"{setting} must be a positive integer, got `{value}`"
  | .badFlag setting value =>
    s!"{setting} must be one of 1/0/true/false/yes/no/on/off, got `{value}`"

namespace Config

/-- The configuration that holds if nothing else is said. -/
def standard : Config :=
  ⟨ParseOptions.standard.maxDepth, ParseOptions.standard.maxChain,
    ParseOptions.standard.strictLiterals, false⟩

/-- What limits programs under a configuration. -/
def options (config : Config) : ParseOptions :=
  ⟨config.maxDepth, config.maxChain, config.strictLiterals⟩

-- ================================================================= reading

/-- The greatest limit there is. -/
def greatestLimit : Nat := 18446744073709551615

/-- The number that a text writes: digits, behind a plus sign or not. -/
def natural? (cs : List Char) : Option Nat :=
  let digits := if ['+'].isPrefixOf cs then cs.drop 1 else cs
  if Decimal.areDigits digits then some (Decimal.valueOf digits) else none

/-- A limit: a positive number that is not too large, with blanks around it or
not. -/
def limit? (value : String) : Option Nat :=
  (natural? (Text.trim value).toList).filter fun n => 0 < n && n ≤ greatestLimit

/-- A switch, in any case, with blanks around it or not; nothing at all is
off. -/
def flag? (value : String) : Option Bool :=
  let word := String.ofList ((Text.trim value).toList.map Char.toLower)
  if ["1", "true", "yes", "on"].contains word then some true
  else if ["", "0", "false", "no", "off"].contains word then some false
  else none

/-- The limit that is given for a setting. -/
def readLimit (setting value : String) : Except ConfigError Nat :=
  match limit? value with
  | some n => .ok n
  | none => .error (.badLimit setting value)

/-- The switch that is given for a setting. -/
def readFlag (setting value : String) : Except ConfigError Bool :=
  match flag? value with
  | some b => .ok b
  | none => .error (.badFlag setting value)

-- ============================================================= environment

/-- The variable for the depth. -/
def depthVariable : String := "WEFT_MAX_DEPTH"

/-- The variable for the length of chains. -/
def chainVariable : String := "WEFT_MAX_CHAIN"

/-- The variable for strict literals. -/
def strictVariable : String := "WEFT_STRICT"

/-- What a variable comes to if it is set, and what held before if it is not. -/
def override {α : Type} (environment : String → Option String)
    (read : String → String → Except ConfigError α) (variableName : String) (before : α) :
    Except ConfigError α :=
  match environment variableName with
  | some value => read variableName value
  | none => .ok before

/-- The configuration with the variables of the environment in force. -/
def withEnvironment (config : Config) (environment : String → Option String) :
    Except ConfigError Config := do
  let maxDepth ← override environment readLimit depthVariable config.maxDepth
  let maxChain ← override environment readLimit chainVariable config.maxChain
  let strictLiterals ← override environment readFlag strictVariable config.strictLiterals
  pure { config with maxDepth, maxChain, strictLiterals }

end Config

end UiScript
