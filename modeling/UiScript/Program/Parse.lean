/-
Reading a list of tokens as a program, by recursive descent:

    program    := ';'* statement (';'* statement)* ';'*
    statement  := chain
    chain      := primary ('.' call)*
    primary    := call | literal | '(' chain ')'
    call       := NAME ('(' (argument (',' argument)* ','?)? ')')? block?
    argument   := NAME ':' chain | chain
    block      := 'do' body 'end' | '{' body '}'
    body       := (';'* statement)* ';'*

A name is put to the policy as soon as it is read, before anything after
it; marks that the policy refuses are looked for in the whole list before
anything else. The depth of open delimiters and the number of links in a
chain are limited.

Every production gives back, with its value, a state that has less ahead
than the one it began with; this is why reading comes to an end.
-/
import UiScript.Program.Basic
import UiScript.Program.Cursor
import UiScript.Program.Failure

namespace UiScript

namespace Delimiter

/-- Whether what closes a delimiter stands at the cursor. -/
def closesAt (delimiter : Delimiter) (c : Cursor) : Bool :=
  match delimiter with
  | .arguments | .parentheses => c.atMark ')'
  | .keywords => c.atKeyword .closesBlock
  | .braces => c.atMark '\x7d'

/-- At the end of the input nothing is closed. -/
theorem atEnd_eq_false_of_closesAt {delimiter : Delimiter} {c : Cursor}
    (h : delimiter.closesAt c = true) : c.atEnd = false := by
  cases delimiter with
  | arguments => exact Cursor.atEnd_eq_false_of_atMark h
  | parentheses => exact Cursor.atEnd_eq_false_of_atMark h
  | keywords => exact Cursor.atEnd_eq_false_of_atKeyword h
  | braces => exact Cursor.atEnd_eq_false_of_atMark h

end Delimiter

/-- What limits programs, apart from the policy. -/
structure ParseOptions where
  /-- How many delimiters may be open at once. -/
  maxDepth : Nat
  /-- How many calls may be chained to one expression. -/
  maxChain : Nat
  /-- Whether string literals are put to the policy. -/
  strictLiterals : Bool
deriving DecidableEq, Inhabited

/-- The limits that hold if nothing else is said. -/
def ParseOptions.standard : ParseOptions := ⟨64, 128, false⟩

/-- What programs are read under. -/
structure ParseRules where
  policy : Policy
  options : ParseOptions

/-- A cursor, and how many delimiters are open before it. -/
structure ParseState where
  cursor : Cursor
  depth : Nat

namespace ParseState

-- ==================================================================== state

/-- How many tokens lie ahead. -/
def size (s : ParseState) : Nat := s.cursor.size

/-- The state with the cursor one token further on. -/
def advance (s : ParseState) : ParseState := { s with cursor := s.cursor.advance }

/-- The state past the statement separators. -/
def skipSeparators (s : ParseState) : ParseState := { s with cursor := s.cursor.skipSeparators }

/-- An error of grammar at the cursor. -/
def failHere (s : ParseState) (cause : SyntaxError.Cause) : ParseFailure :=
  .grammar ⟨s.cursor.span, cause⟩

/-- The state with one more open delimiter; `opened` is where it stands. -/
def open? (rules : ParseRules) (opened : Span) (s : ParseState) : Except ParseFailure ParseState :=
  if s.depth + 1 ≤ rules.options.maxDepth then .ok { s with depth := s.depth + 1 }
  else .error (.grammar ⟨opened, .nestingTooDeep rules.options.maxDepth s.cursor.kind⟩)

/-- The state with one open delimiter less. -/
def close (s : ParseState) : ParseState := { s with depth := s.depth - 1 }

/-- The state past what closes a delimiter. -/
def expectClosing (delimiter : Delimiter) (opened : Span) (s : ParseState) :
    Except ParseFailure ParseState :=
  if delimiter.closesAt s.cursor then .ok s.advance
  else if s.cursor.atEnd then .error (s.failHere (.unclosed delimiter opened s.cursor.kind))
  else .error (s.failHere (.unexpected delimiter s.cursor.kind))

@[simp] theorem size_close (s : ParseState) : s.close.size = s.size := rfl

theorem size_advance_le (s : ParseState) : s.advance.size ≤ s.size := s.cursor.advance_size_le

/-- Away from the end a token is passed; this is what every production comes
back to when it has to show that less is ahead. -/
theorem size_advance_lt {s : ParseState} (h : s.cursor.atEnd = false) : s.advance.size < s.size :=
  Cursor.advance_size_lt h

/-- Passing separators leaves no more ahead. -/
theorem size_skipSeparators_le (s : ParseState) : s.skipSeparators.size ≤ s.size :=
  s.cursor.skipSeparators_size_le

/-- What opening a delimiter comes to. -/
theorem open?_eq_ok {rules : ParseRules} {opened : Span} {s t : ParseState}
    (h : s.open? rules opened = .ok t) :
    t = { s with depth := s.depth + 1 } ∧ s.depth + 1 ≤ rules.options.maxDepth := by
  unfold open? at h
  split at h
  · next hle => exact ⟨(Except.ok.inj h).symm, hle⟩
  · cases h

theorem size_open? {rules : ParseRules} {opened : Span} {s t : ParseState}
    (h : s.open? rules opened = .ok t) : t.size = s.size := by
  rw [(open?_eq_ok h).1]
  rfl

/-- Behind an opening token less lies ahead. -/
theorem size_lt_of_open? {rules : ParseRules} {opened : Span} {s t : ParseState}
    (hend : s.cursor.atEnd = false) (hopen : s.advance.open? rules opened = .ok t) :
    t.size < s.size := by
  rw [size_open? hopen]
  exact size_advance_lt hend

/-- What closing a delimiter comes to. -/
theorem expectClosing_eq_ok {delimiter : Delimiter} {opened : Span} {s t : ParseState}
    (h : s.expectClosing delimiter opened = .ok t) :
    t = s.advance ∧ delimiter.closesAt s.cursor = true := by
  unfold expectClosing at h
  split at h
  · next hcloses => exact ⟨(Except.ok.inj h).symm, hcloses⟩
  · split at h <;> cases h

end ParseState

/-- What a production gives back: a value, and a state with less than `bound`
ahead. -/
structure Parsed (bound : Nat) (α : Type) where
  value : α
  state : ParseState
  size_lt : state.size < bound

namespace Parsed

/-- The same result under a larger bound. -/
def widen {m n : Nat} {α : Type} (h : m ≤ n) (p : Parsed m α) : Parsed n α :=
  ⟨p.value, p.state, Nat.lt_of_lt_of_le p.size_lt h⟩

end Parsed

namespace ParseRules

variable (rules : ParseRules)

-- ============================================================== productions

/-- Puts a rejection among the failures. -/
def refuse {α : Type} (result : Except Rejection α) : Except ParseFailure α :=
  result.mapError .refused

/-- The key that stands at the cursor: a name with a colon after it. -/
def keyAt (c : Cursor) : Option String :=
  match c.kind with
  | .identifier name => if c.peekKind.isMark ':' then some name else none
  | _ => none

/-- What stands at the cursor and is a literal. -/
def readLiteral (s : ParseState) (value : Literal) (h : s.cursor.atEnd = false) :
    Except ParseFailure (Parsed s.size Expr) := do
  match value with
  | .string text =>
    if rules.options.strictLiterals then refuse (Policy.checkLiteral text s.cursor.span)
  | _ => pure ()
  pure ⟨.literal value s.cursor.span, s.advance, ParseState.size_advance_lt h⟩

/-- The keys of the named arguments. -/
def argumentKeys (args : List Argument) : List String := args.filterMap Argument.key?

/-- A literal is not the end of the input. -/
theorem atEnd_eq_false_of_literal {c : Cursor} {value : Literal}
    (h : Literal.ofToken? c.kind = some value) : c.atEnd = false := by
  unfold Cursor.atEnd
  cases hk : c.kind <;> first | rfl | (rw [hk] at h; cases h)

theorem atEnd_eq_false_of_identifier {c : Cursor} {name : String}
    (h : c.kind = .identifier name) : c.atEnd = false := by
  unfold Cursor.atEnd
  rw [h]
  rfl

theorem atEnd_eq_false_of_keyAt {c : Cursor} {key : String} (h : keyAt c = some key) :
    c.atEnd = false := by
  unfold keyAt at h
  split at h
  · next hk => exact atEnd_eq_false_of_identifier hk
  · cases h

mutual
/-- An expression and the calls chained to it. -/
def readChain (s : ParseState) : Except ParseFailure (Parsed s.size Expr) := do
  let ⟨first, t, ht⟩ ← readPrimary s
  readLinks 0 first t ht
termination_by 5 * s.size + 2

/-- The calls chained to `soFar`, of which there are `links` already. -/
def readLinks {bound : Nat} (links : Nat) (soFar : Expr) (s : ParseState) (hs : s.size < bound) :
    Except ParseFailure (Parsed bound Expr) := do
  if hmark : s.cursor.atMark '.' = true then
    if rules.options.maxChain < links + 1 then
      throw (s.failHere (.chainTooLong rules.options.maxChain s.cursor.kind))
    have hadvance := ParseState.size_advance_lt (Cursor.atEnd_eq_false_of_atMark hmark)
    let ⟨call, t, ht⟩ ← readCall (some soFar) s.advance
    readLinks (links + 1) (.call call) t (by omega)
  else pure ⟨soFar, s, hs⟩
termination_by 5 * s.size + 0

/-- A call, a literal, or an expression in parentheses. -/
def readPrimary (s : ParseState) : Except ParseFailure (Parsed s.size Expr) := do
  match hliteral : Literal.ofToken? s.cursor.kind with
  | some value => rules.readLiteral s value (atEnd_eq_false_of_literal hliteral)
  | none =>
    match s.cursor.kind with
    | .identifier _ =>
      let ⟨call, t, ht⟩ ← readCall none s
      pure ⟨.call call, t, ht⟩
    | _ =>
      if hmark : s.cursor.atMark '(' = true then
        readParenthesized s (Cursor.atEnd_eq_false_of_atMark hmark)
      else throw (s.failHere (.missingExpression s.cursor.kind))
termination_by 5 * s.size + 1

/-- An expression in parentheses, from the opening one on; the parentheses
leave no trace. -/
def readParenthesized (s : ParseState) (hs : s.cursor.atEnd = false) :
    Except ParseFailure (Parsed s.size Expr) := do
  let opened := s.cursor.span
  have hadvance := ParseState.size_advance_lt hs
  match hopen : s.advance.open? rules opened with
  | .error e => throw e
  | .ok t =>
    have ht := ParseState.size_open? hopen
    let ⟨inner, u, hu⟩ ← readChain t
    match hclose : u.expectClosing .parentheses opened with
    | .error e => throw e
    | .ok v =>
      pure ⟨inner, v.close, by
        rw [(ParseState.expectClosing_eq_ok hclose).1]
        have := u.size_advance_le
        simp only [ParseState.size_close]
        omega⟩
termination_by 5 * s.size + 0

/-- A call, from its name on; the name is put to the policy first. -/
def readCall (receiver : Option Expr) (s : ParseState) :
    Except ParseFailure (Parsed s.size Call) := do
  match hname : s.cursor.kind with
  | .identifier name =>
    refuse (rules.policy.checkName name s.cursor.span)
    have hadvance := ParseState.size_advance_lt (atEnd_eq_false_of_identifier hname)
    let ⟨args, t, ht⟩ ← readArguments s.advance
    let ⟨block, u, hu⟩ ← readBlock t
    let start := match receiver with
      | some r => r.span.start
      | none => s.cursor.span.start
    pure ⟨⟨receiver, name, args, block, ⟨start, u.cursor.previousSpan.stop⟩⟩, u, by omega⟩
  | found => throw (s.failHere (.missingName found))
termination_by 5 * s.size + 0

/-- The arguments of a call, if an opening parenthesis stands at the cursor. -/
def readArguments (s : ParseState) : Except ParseFailure (Parsed (s.size + 1) (List Argument)) := do
  if hmark : s.cursor.atMark '(' = true then
    let opened := s.cursor.span
    have hadvance := ParseState.size_advance_lt (Cursor.atEnd_eq_false_of_atMark hmark)
    match hopen : s.advance.open? rules opened with
    | .error e => throw e
    | .ok t =>
      have ht := ParseState.size_open? hopen
      let ⟨args, u, hu⟩ ← readArgumentList [] t
      match hclose : u.expectClosing .arguments opened with
      | .error e => throw e
      | .ok v =>
        pure ⟨args, v.close, by
          rw [(ParseState.expectClosing_eq_ok hclose).1]
          have := u.size_advance_le
          simp only [ParseState.size_close]
          omega⟩
  else pure ⟨[], s, Nat.lt_succ_self _⟩
termination_by 5 * s.size + 0

/-- Arguments up to the end of the list; `before` stand before it, the last
one first. -/
def readArgumentList (before : List Argument) (s : ParseState) :
    Except ParseFailure (Parsed (s.size + 1) (List Argument)) := do
  if Delimiter.arguments.closesAt s.cursor || s.cursor.atEnd then pure ⟨before.reverse, s, Nat.lt_succ_self _⟩
  else
    let ⟨arg, t, ht⟩ ← readArgument before s
    if t.cursor.atMark ',' then
      have hadvance := t.size_advance_le
      let rest ← readArgumentList (arg :: before) t.advance
      pure (rest.widen (by omega))
    else pure ⟨(arg :: before).reverse, t, by omega⟩
termination_by 5 * s.size + 4

/-- One argument; `before` stand before it. -/
def readArgument (before : List Argument) (s : ParseState) :
    Except ParseFailure (Parsed s.size Argument) := do
  let keys := argumentKeys before
  match hkey : keyAt s.cursor with
  | some key =>
    if keys.contains key then throw (s.failHere (.duplicateKey key))
    have hkeyed := ParseState.size_advance_lt (atEnd_eq_false_of_keyAt hkey)
    have hcolon := s.advance.size_advance_le
    let ⟨value, t, ht⟩ ← readChain s.advance.advance
    pure ⟨.named key value (s.cursor.span.merge value.span), t, by omega⟩
  | none =>
    if !keys.isEmpty then throw (s.failHere (.positionalAfterNamed s.cursor.kind))
    let ⟨value, t, ht⟩ ← readChain s
    pure ⟨.positional value, t, ht⟩
termination_by 5 * s.size + 3

/-- The block of a call, if one opens at the cursor. -/
def readBlock (s : ParseState) : Except ParseFailure (Parsed (s.size + 1) (Option Block)) := do
  if hkeyword : s.cursor.atKeyword .opensBlock = true then
    let ⟨block, t, ht⟩ ← readBody .keywords s (Cursor.atEnd_eq_false_of_atKeyword hkeyword)
    pure ⟨some block, t, by omega⟩
  else if hmark : s.cursor.atMark '\x7b' = true then
    let ⟨block, t, ht⟩ ← readBody .braces s (Cursor.atEnd_eq_false_of_atMark hmark)
    pure ⟨some block, t, by omega⟩
  else pure ⟨none, s, Nat.lt_succ_self _⟩
termination_by 5 * s.size + 1

/-- A block, from what opens it on. -/
def readBody (delimiter : Delimiter) (s : ParseState) (hs : s.cursor.atEnd = false) :
    Except ParseFailure (Parsed s.size Block) := do
  let opened := s.cursor.span
  have hadvance := ParseState.size_advance_lt hs
  match hopen : s.advance.open? rules opened with
  | .error e => throw e
  | .ok t =>
    have ht := ParseState.size_open? hopen
    let ⟨statements, u, hu⟩ ← readStatements delimiter opened [] t
    have := u.size_advance_le
    pure ⟨⟨statements, opened.merge u.cursor.span⟩, u.advance.close, by
      simp only [ParseState.size_close]
      omega⟩
termination_by 5 * s.size + 0

/-- The statements of a block, up to what closes it; `before` stand before
them, the last first. -/
def readStatements (delimiter : Delimiter) (opened : Span) (before : List Expr) (s : ParseState) :
    Except ParseFailure (Parsed (s.size + 1) (List Expr)) := do
  have hskip := s.size_skipSeparators_le
  if delimiter.closesAt s.skipSeparators.cursor then
    pure ⟨before.reverse, s.skipSeparators, by omega⟩
  else if s.skipSeparators.cursor.atEnd then
    throw (s.skipSeparators.failHere (.unclosed delimiter opened s.skipSeparators.cursor.kind))
  else
    let ⟨statement, u, hu⟩ ← readChain s.skipSeparators
    let rest ← readStatements delimiter opened (statement :: before) u
    pure (rest.widen (by omega))
termination_by 5 * s.size + 3
end

-- ================================================================= programs

/-- The statements of a program, up to the end; `before` stand before them,
the last one first. -/
def readProgram (before : List Expr) (s : ParseState) : Except ParseFailure (List Expr) := do
  if s.cursor.atEnd then pure before.reverse
  else
    let ⟨statement, t, _⟩ ← rules.readChain s
    have := t.size_skipSeparators_le
    readProgram (statement :: before) t.skipSeparators
termination_by s.size

/-- Refuses the first mark of the whole list that the policy refuses. -/
def checkMarks : List Token → Except Rejection Unit
  | [] => .ok ()
  | t :: ts => do
    match t.kind with
    | .punctuation mark => Policy.checkMark mark t.span
    | _ => pure ()
    checkMarks ts

/-- One statement stands for itself; several make a sequence from the first to
the last. -/
def rootOf : List Expr → Expr
  | [only] => only
  | [] => .sequence ⟨[], Span.nowhere⟩
  | first :: rest => .sequence ⟨first :: rest, first.span.merge (rest.getLastD first).span⟩

/-- The program that a list of tokens is. -/
def parse (tokens : List Token) : Except ParseFailure Expr := do
  refuse (checkMarks tokens)
  let s : ParseState := ⟨(Cursor.ofTokens tokens).skipSeparators, 0⟩
  if s.cursor.atEnd then throw (s.failHere .emptyInput)
  let statements ← rules.readProgram [] s
  pure (rootOf statements)

end ParseRules

end UiScript
