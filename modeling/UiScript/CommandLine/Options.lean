/-
The options of the command line. An argument is an option or an input;
every command takes every option, wherever it stands, and of an option that
is given more than once the last one counts. A single minus sign is an
input.
-/
import UiScript.Config

namespace UiScript.CommandLine

/-- When reports are coloured. -/
inductive ColorMode where
  /-- On a terminal. -/
  | auto
  | always
  | never
deriving DecidableEq, Inhabited

/-- Whether a report is coloured, given whether it goes to a terminal. -/
def ColorMode.isOn : ColorMode → Bool → Bool
  | .auto, toTerminal => toTerminal
  | .always, _ => true
  | .never, _ => false

/-- What the options of a command come to. -/
structure Options where
  config : Config
  /-- Whether output is written as JSON. -/
  json : Bool
  color : ColorMode
deriving DecidableEq

/-- One option. -/
inductive Setting where
  | maxDepth (limit : Nat)
  | maxChain (limit : Nat)
  | color (mode : ColorMode)
  | strict
  | denylistOnly
  | json
deriving DecidableEq

/-- What an argument is. -/
inductive Argument where
  | setting (setting : Setting)
  | input (path : String)
deriving DecidableEq

/-- An argument that cannot be read. -/
inductive OptionError where
  | badConfig (error : ConfigError)
  | badColor (value : String)
  | unknown (option : String)
deriving DecidableEq

/-- An error in words. -/
def OptionError.message : OptionError → String
  | .badConfig e => e.message
  | .badColor value => s!"invalid --color value '{value}' (auto, always, never)"
  | .unknown option => s!"unknown option '{option}'"

-- ================================================================== reading

/-- What follows the start of a text. -/
def after? (start s : String) : Option String :=
  if start.toList.isPrefixOf s.toList then some (String.ofList (s.toList.drop start.toList.length))
  else none

/-- The mode with a name. -/
def colorMode? : String → Option ColorMode
  | "auto" => some .auto
  | "always" => some .always
  | "never" => some .never
  | _ => none

/-- An option that is a limit. -/
def limitSetting (option : String) (setting : Nat → Setting) (value : String) :
    Except OptionError Argument :=
  match Config.readLimit option value with
  | .ok limit => .ok (.setting (setting limit))
  | .error e => .error (.badConfig e)

/-- The option for colours. -/
def colorSetting (value : String) : Except OptionError Argument :=
  match colorMode? value with
  | some mode => .ok (.setting (.color mode))
  | none => .error (.badColor value)

/-- An argument that is no option with a value. -/
def plainArgument (argument : String) : Except OptionError Argument :=
  if argument = "--strict" then .ok (.setting .strict)
  else if argument = "--denylist-only" then .ok (.setting .denylistOnly)
  else if argument = "--json" then .ok (.setting .json)
  else if argument ≠ "-" ∧ ['-'].isPrefixOf argument.toList then .error (.unknown argument)
  else .ok (.input argument)

/-- What an argument is. -/
def readArgument (argument : String) : Except OptionError Argument :=
  match after? "--max-depth=" argument with
  | some value => limitSetting "--max-depth" .maxDepth value
  | none =>
    match after? "--max-chain=" argument with
    | some value => limitSetting "--max-chain" .maxChain value
    | none =>
      match after? "--color=" argument with
      | some value => colorSetting value
      | none => plainArgument argument

-- ================================================================= applying

/-- The options with one more setting in force. -/
def Options.apply (options : Options) : Setting → Options
  | .maxDepth limit => { options with config := { options.config with maxDepth := limit } }
  | .maxChain limit => { options with config := { options.config with maxChain := limit } }
  | .color mode => { options with color := mode }
  | .strict => { options with config := { options.config with strictLiterals := true } }
  | .denylistOnly => { options with config := { options.config with denylistOnly := true } }
  | .json => { options with json := true }

/-- The options, and the inputs in order, after the arguments were read from
left to right. -/
def parseFrom (options : Options) (inputs : List String) :
    List String → Except OptionError (Options × List String)
  | [] => .ok (options, inputs)
  | argument :: arguments => do
    match ← readArgument argument with
    | .setting setting => parseFrom (options.apply setting) inputs arguments
    | .input path => parseFrom options (inputs ++ [path]) arguments

/-- The options and the inputs that arguments come to, over a configuration. -/
def parse (base : Config) (arguments : List String) :
    Except OptionError (Options × List String) :=
  parseFrom ⟨base, false, .auto⟩ [] arguments

end UiScript.CommandLine
