/-
What the command line says about itself.
-/

namespace UiScript.CommandLine

/-- The version of the program. -/
def version : String := "weft 0.1.0-alpha.1"

/-- The lines of the help message. -/
def usage : List String := [
  "Weft: sandboxed UI DSL interpreter",
  "",
  "Usage: weft <command> [options]",
  "",
  "Commands:",
  "  lex <file>           Tokenize and display tokens (comments included)",
  "  parse <file>         Parse and display the AST",
  "  run <file>           Execute against the standard context",
  "  check <files...>     Execute many files in parallel, report failures",
  "  deny [name]          Show how the policy classifies a method name",
  "  help                 Show this help message",
  "  version              Show version information",
  "",
  "Use `-` as the file to read from stdin.",
  "",
  "Options:",
  "  --max-depth=N        Maximum nesting depth (default: 64)",
  "  --max-chain=N        Maximum method chain length (default: 128)",
  "  --strict             Reject string literals with shell/path patterns",
  "  --denylist-only      Do not restrict names to the context's operations",
  "  --json               JSON output for `parse` and `run`",
  "  --color=<mode>       Diagnostics coloring: auto, always, never",
  "",
  "Environment:",
  "  WEFT_MAX_DEPTH, WEFT_MAX_CHAIN, WEFT_STRICT   Defaults for the options above",
  "  RUST_LOG                                      Enable tracing (e.g. weft_eval=debug)",
  "",
  "Exit status: 0 success, 1 error, 2 security rejection",
  "",
  "Examples:",
  "  weft run page.weft",
  "  echo 'text(\"hi\").bold' | weft run - --json",
  "  weft check views/*.weft --strict",
  "  weft deny instance_eval"]

/-- How a command that reads one input is called. -/
def inputUsage (command : String) : String := s!"Usage: weft {command} <file | -> [options]"

/-- How the command that reads many inputs is called. -/
def checkUsage : String := "Usage: weft check <file...> [options]"

end UiScript.CommandLine
