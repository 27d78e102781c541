/-
Rejections: what the policy refused, why, and where it stands. The three
checks of this file are the ones that a program goes through.

# Main statements

* `checkName_eq_ok_iff` — a name passes exactly if the policy allows it.
-/
import UiScript.Diagnostic.Basic
import UiScript.Policy.Basic

namespace UiScript

namespace Policy.Violation

/-- The code of a violation. -/
def code : Violation → ErrorCode
  | .denied => .deniedName
  | .constant => .constantName
  | .dunder => .dunderName
  | .suspiciousName => .suspiciousName
  | .suspiciousMark => .suspiciousMark
  | .suspiciousLiteral => .suspiciousLiteral
  | .unlisted => .unlistedName

/-- A violation in words. -/
def text : Violation → String
  | .denied => "method is not allowed"
  | .constant => "constant references are not allowed"
  | .dunder => "dunder methods are not allowed"
  | .suspiciousName => "suspicious identifier"
  | .suspiciousMark => "suspicious character"
  | .suspiciousLiteral => "suspicious string literal"
  | .unlisted => "method is not available"

end Policy.Violation

/-- Something that the policy refused. -/
structure Rejection where
  span : Span
  /-- The name, the character or the literal. -/
  offender : String
  violation : Policy.Violation
deriving DecidableEq

namespace Rejection

/-- The code of a rejection. -/
def code (r : Rejection) : ErrorCode := r.violation.code

/-- A rejection in words. -/
def message (r : Rejection) : String := s!"{r.violation.text}: `{r.offender}`"

/-- A rejection as its reader sees it. -/
def diagnostic (r : Rejection) : Diagnostic :=
  let d := (Diagnostic.error r.code r.message).withLabel r.span r.violation.text
  match r.violation with
  | .constant => d.withNote "only lowercase operation names can be called"
  | .unlisted => d.withHelp "run `weft deny <name>` to see how a name is classified"
  | .suspiciousLiteral => d.withNote "strict mode rejects literals with shell or path patterns"
  | _ => d

end Rejection

namespace Policy

/-- Refuses a name that may not be called. -/
def checkName (policy : Policy) (name : String) (span : Span) : Except Rejection Unit :=
  match policy.violation? name with
  | none => .ok ()
  | some violation => .error ⟨span, name, violation⟩

/-- Refuses a mark that means something to shells. -/
def checkMark (mark : Char) (span : Span) : Except Rejection Unit :=
  if isSuspiciousMark mark then .error ⟨span, mark.toString, .suspiciousMark⟩ else .ok ()

/-- Refuses a literal that could escape from where it ends up. -/
def checkLiteral (value : String) (span : Span) : Except Rejection Unit :=
  if isSuspiciousLiteral value then .error ⟨span, value, .suspiciousLiteral⟩ else .ok ()

/-- A name passes exactly if the policy allows it. The span only matters to
the rejection. -/
theorem checkName_eq_ok_iff {policy : Policy} {name : String} {span : Span} :
    policy.checkName name span = .ok () ↔ policy.allows name = true := by
  unfold checkName allows
  cases policy.violation? name <;> simp

end Policy

end UiScript
