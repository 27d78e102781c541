/-
Diagnostics: what a failure looks like to its reader. A diagnostic has a
code, a severity and a message, labels on spans of the source, notes, and
at most one piece of help. Labels and notes keep the order in which they
were added.
-/
import UiScript.Diagnostic.Code
import UiScript.Span

namespace UiScript

/-- How bad it is. -/
inductive Severity where
  | error
  | warning
  | note
deriving DecidableEq, Inhabited

/-- The word for a severity. -/
def Severity.text : Severity → String
  | .error => "error"
  | .warning => "warning"
  | .note => "note"

/-- A message at a span of the source. -/
structure Label where
  span : Span
  message : String
  /-- Primary labels mark the fault itself, the others what belongs to it. -/
  isPrimary : Bool
deriving DecidableEq

/-- What a failure looks like to its reader. -/
structure Diagnostic where
  code : ErrorCode
  severity : Severity
  message : String
  labels : List Label
  notes : List String
  help : Option String
deriving DecidableEq

namespace Diagnostic

-- ============================================================== building

/-- An error without labels. -/
def error (code : ErrorCode) (message : String) : Diagnostic := ⟨code, .error, message, [], [], none⟩

/-- The diagnostic with one more primary label. -/
def withLabel (d : Diagnostic) (span : Span) (message : String) : Diagnostic :=
  { d with labels := d.labels ++ [⟨span, message, true⟩] }

/-- The diagnostic with one more label that is not primary. -/
def withSecondaryLabel (d : Diagnostic) (span : Span) (message : String) : Diagnostic :=
  { d with labels := d.labels ++ [⟨span, message, false⟩] }

/-- The diagnostic with one more note. -/
def withNote (d : Diagnostic) (note : String) : Diagnostic := { d with notes := d.notes ++ [note] }

/-- The diagnostic with this help. -/
def withHelp (d : Diagnostic) (help : String) : Diagnostic := { d with help := some help }

-- =============================================================== reading

/-- The span of the first primary label. -/
def primarySpan? (d : Diagnostic) : Option Span :=
  (d.labels.find? fun label => label.isPrimary).map Label.span

/-- Whether it is an error. -/
def isError (d : Diagnostic) : Bool := d.severity == .error

/-- A diagnostic on one line, without its place. -/
def text (d : Diagnostic) : String := s!"{d.severity.text}[{d.code.text}]: {d.message}"

end Diagnostic

end UiScript
