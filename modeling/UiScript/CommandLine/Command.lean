/-
The commands. A command is given the environment and its arguments, and a
way to read inputs; it answers with its output and an exit code: 0 for
success, 2 if the policy refused something, 1 for everything else. How
inputs are read is left open: a command asks for each of its inputs once,
in order, and reads nothing else.
-/
import UiScript.CommandLine.Options
import UiScript.CommandLine.Usage
import UiScript.Diagnostic.Report
import UiScript.Interpreter.Basic
import UiScript.Standard.Table

namespace UiScript.CommandLine

-- ================================================================== output

/-- What a command leaves behind. -/
structure Output where
  code : Nat
  stdout : String
  stderr : String
deriving DecidableEq

/-- Lines, each with its end. -/
def ofLines (lines : List String) : String := String.join (lines.map (· ++ "\n"))

/-- Success, with text on standard output. -/
def success (stdout : String) : Output := ⟨0, stdout, ""⟩

/-- An error, with lines on standard error. -/
def errorLines (lines : List String) : Output := ⟨1, "", ofLines lines⟩

-- ================================================================== inputs

/-- Why an input cannot be read. -/
inductive ReadFailure where
  | missing
  | forbidden
  /-- The input is not in UTF-8. -/
  | notText
  | other (reason : String)
deriving DecidableEq

/-- The input that stands for standard input. -/
def standardInput : String := "-"

/-- A failure in words; an input that is not text is all that is told of
standard input. -/
def ReadFailure.message (path : String) (failure : ReadFailure) : String :=
  if path = standardInput then
    match failure with
    | .notText => "error reading stdin: stream did not contain valid UTF-8"
    | .missing => "error reading stdin: not found"
    | .forbidden => "error reading stdin: permission denied"
    | .other reason => s!"error reading stdin: {reason}"
  else
    match failure with
    | .missing => s!"cannot find file '{path}'"
    | .forbidden => s!"permission denied reading '{path}'"
    | .notText => s!"'{path}' contains invalid UTF-8 data"
    | .other reason => s!"error reading '{path}': {reason}"

/-- A way to read inputs. -/
abbrev Reader (m : Type → Type) := String → m (Except ReadFailure String)

-- ================================================================ failures

/-- The exit code for a failure. -/
def exitCode (failure : Failure) : Nat := if failure.isSecurity then 2 else 1

/-- What is left behind by a failure: its summary, then its report. -/
def failed (path source : String) (failure : Failure) : Output :=
  let diagnostic := failure.diagnostic
  ⟨exitCode failure, "",
    ofLines (diagnostic.summary path source :: Report.draw diagnostic source)⟩

/-- The interpreter that options come to. -/
def Options.interpreter (options : Options) : Interpreter := ⟨options.config, none⟩

-- ===================================================== commands on one input

/-- The tokens of a source, comments included. -/
def lexSource (path source : String) : Output :=
  match Token.ofSourceWithComments source with
  | .error e => failed path source (.lexical e)
  | .ok tokens =>
    success (ofLines (s!"Tokens for '{path}' ({tokens.length} tokens):"
      :: tokens.map fun t => "  " ++ t.shown))

/-- The program of a source, read without a table. -/
def parseSource (options : Options) (path source : String) : Output :=
  match options.interpreter.parse source with
  | .error failure => failed path source failure
  | .ok program =>
    if options.json then success (ofLines [program.json.pretty])
    else
      let names := program.methodNames
      let methods := if names.isEmpty then [] else ["  Methods: " ++ ", ".intercalate names]
      success (ofLines ([s!"Parse result for '{path}':", s!"  Calls: {names.length}"] ++ methods
        ++ ["", program.shape.block]))

/-- What a source comes to against the standard table. -/
def runSource (options : Options) (path source : String) : Output :=
  match (options.interpreter.interpret Standard.table source ()).1 with
  | .error failure => failed path source failure
  | .ok value =>
    if options.json then success (ofLines [value.json.pretty])
    else success (if value.isRenderable then value.text else ofLines [value.text])

-- =========================================================== many at a time

/-- What checking an input comes to. -/
inductive CheckOutcome where
  | ok
  | unreadable (message : String)
  | failed (summary : String) (code : Nat)
deriving DecidableEq

namespace CheckOutcome

/-- The exit code of an outcome. -/
def code : CheckOutcome → Nat
  | .ok => 0
  | .unreadable _ => 1
  | .failed _ code => code

/-- What is said about an input that does not pass. -/
def complaint? : CheckOutcome → Option String
  | .ok => none
  | .unreadable message => some message
  | .failed summary _ => some summary

end CheckOutcome

/-- Whether a source passes: it can be run against the standard table. -/
def checkSource (interpreter : Interpreter) (path source : String) : CheckOutcome :=
  match (interpreter.interpret Standard.table source ()).1 with
  | .ok _ => .ok
  | .error failure => .failed (failure.diagnostic.summary path source) (exitCode failure)

/-- The exit code of several outcomes: the greatest one. -/
def checkCode (outcomes : List CheckOutcome) : Nat :=
  outcomes.foldr (fun outcome code => max outcome.code code) 0

/-- What is left behind by checking inputs. -/
def checkOutput (outcomes : List (String × CheckOutcome)) : Output :=
  let passed := outcomes.filter fun o => o.2.complaint?.isNone
  let complaints := outcomes.filterMap fun o => o.2.complaint?
  ⟨checkCode (outcomes.map Prod.snd),
    ofLines (passed.map (fun o => s!"ok    {o.1}")
      ++ ["", s!"{outcomes.length} checked, {complaints.length} failed"]),
    ofLines complaints⟩

-- =================================================================== names

/-- How a policy classifies a name. -/
def classification (policyName : String) (policy : Policy) (name : String) : String :=
  match policy.violation? name with
  | none => s!"{policyName}: `{name}` allowed"
  | some violation =>
    s!"{policyName}: `{name}` rejected [{violation.code.text}]: {violation.text}"

/-- How the denylist and the standard table's policy classify a name. -/
def classifications (name : String) : List String :=
  [classification "denylist" .denylistOnly name,
    classification "standard context" Standard.policy name]

/-- Classifies a name, or lists the names that are always refused. -/
def deny : Option String → Output
  | none => success (ofLines Policy.denylist)
  | some name =>
    ⟨if Policy.denylistOnly.allows name then 0 else 2, ofLines (classifications name), ""⟩

-- ================================================================ dispatch

section

variable {m : Type → Type} [Monad m] (read : Reader m)

/-- A command on one input. -/
def onInput (command : String) (act : String → String → Output) (inputs : List String) :
    m Output := do
  match inputs with
  | [path] =>
    match ← read path with
    | .ok source => pure (act path source)
    | .error failure => pure (errorLines [failure.message path])
  | _ => pure (errorLines [inputUsage command])

/-- Checks one input. -/
def checkInput (interpreter : Interpreter) (path : String) : m (String × CheckOutcome) := do
  match ← read path with
  | .ok source => pure (path, checkSource interpreter path source)
  | .error failure => pure (path, .unreadable (failure.message path))

/-- Checks every input. -/
def check (interpreter : Interpreter) (inputs : List String) : m Output := do
  if inputs.isEmpty then pure (errorLines [checkUsage])
  else pure (checkOutput (← inputs.mapM (checkInput read interpreter)))

/-- A command with its options. -/
def perform (command : String) (options : Options) (inputs : List String) : m Output :=
  match command with
  | "deny" => pure (deny inputs.head?)
  | "check" => check read options.interpreter inputs
  | "lex" => onInput read command lexSource inputs
  | "parse" => onInput read command (parseSource options) inputs
  | _ => onInput read command (runSource options) inputs

/-- The commands that take options. -/
def commands : List String := ["lex", "parse", "run", "check", "deny"]

/-- What the program does with the environment and its arguments. -/
def run (environment : String → Option String) : List String → m Output
  | [] => pure (success (ofLines usage))
  | command :: arguments =>
    if ["help", "--help", "-h"].contains command then pure (success (ofLines usage))
    else if ["version", "--version", "-V"].contains command then pure (success (ofLines [version]))
    else if commands.contains command then
      match Config.standard.withEnvironment environment with
      | .error e => pure (errorLines [s!"error: {e.message}"])
      | .ok base =>
        match parse base arguments with
        | .error e => pure (errorLines [s!"error: {e.message}"])
        | .ok (options, inputs) => perform read command options inputs
    else pure ⟨1, ofLines usage, ofLines [s!"Unknown command: {command}", ""]⟩

end

end UiScript.CommandLine
