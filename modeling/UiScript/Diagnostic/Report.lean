/-
Drawn reports: a header, the place, the line of the source with the label's
characters underlined, the label's message, then help and notes. A
diagnostic with one label inside one line is drawn in full; of any other,
the header and the place are drawn.

Here a line ends at any of the line separators of Unicode, a carriage
return and a newline together being one, and a separator at the end of the
source starts no new line. Places count characters.
-/
import UiScript.Diagnostic.Lines
import UiScript.Text.Blank

namespace UiScript

open Text

namespace Report

-- ================================================================= lines

/-- The characters that end a line. -/
def endsLine (c : Char) : Bool :=
  c == '\n' || c == '\r' || c == '\x0b' || c == '\x0c' || c == '\u0085' || c == '\u2028'
    || c == '\u2029'

/-- The lines of a source, each with what ends it; `line` is read so far, in
reverse. -/
def linesFrom (line : List Char) : List Char → List (List Char)
  | [] => if line.isEmpty then [] else [line.reverse]
  | [c] => [(c :: line).reverse]
  | c :: d :: cs =>
    if c = '\r' ∧ d = '\n' then (d :: c :: line).reverse :: linesFrom [] cs
    else if endsLine c then (c :: line).reverse :: linesFrom [] (d :: cs)
    else linesFrom (c :: line) (d :: cs)

/-- The lines of a source, each with what ends it. -/
def lines (source : List Char) : List (List Char) := linesFrom [] source

/-- A place: a line and a column, both counted from zero, and the characters
of the line. -/
structure Place where
  line : Nat
  column : Nat
  text : List Char

/-- The place of the character with the given number; `line` lines of `source`
stand before. -/
def placeFrom (line offset : Nat) : List (List Char) → Option Place
  | [] => none
  | [text] => some ⟨line, offset, text⟩
  | text :: next :: rest =>
    if offset < text.length then some ⟨line, offset, text⟩
    else placeFrom (line + 1) (offset - text.length) (next :: rest)

/-- The place of the character with the given number; past the end it is on
the last line. -/
def place? (source : List Char) (offset : Nat) : Option Place := placeFrom 0 offset (lines source)

-- ================================================================ labels

/-- The characters that a label covers, from the first to past the last one;
at least one if possible. -/
def coveredChars (source : List Char) (span : Span) : Nat × Nat :=
  let start := charsBefore span.start source
  let stop := max start (charsBefore span.stop source)
  if start < stop then (start, stop)
  else if start < source.length then (start, start + 1)
  else (start - 1, stop)

/-- The columns of one line that a label covers. -/
structure Underline where
  line : Nat
  text : List Char
  start : Nat
  stop : Nat
  message : String

/-- The underlined columns, if the label stays on one line. -/
def underline? (source : List Char) (label : Label) : Option Underline :=
  let (start, stop) := coveredChars source label.span
  match place? source start with
  | none => none
  | some place =>
    if place.column + (stop - start) ≤ place.text.length then
      some ⟨place.line, place.text, place.column, place.column + (stop - start), label.message⟩
    else none

/-- The column from which the message hangs: the middle one, to the right of
an even number. -/
def Underline.anchor (u : Underline) : Nat :=
  if 1 < u.stop - u.start then (u.start + u.stop) / 2 else u.start

-- =============================================================== drawing

/-- The word for a severity at the head of a report. -/
def title : Severity → String
  | .error => "Error"
  | .warning => "Warning"
  | .note => "Advice"

/-- The same text a number of times. -/
def times (n : Nat) (s : String) : String := String.join (List.replicate n s)

/-- The head line. -/
def header (d : Diagnostic) : String := s!"[{d.code.text}] {title d.severity}: {d.message}"

/-- The line and the column, counted from one, that a report gives as its
place. -/
def location? (d : Diagnostic) (source : String) : Option (Nat × Nat) :=
  if d.labels.isEmpty then none
  else
    let offset := match d.primarySpan? with
      | some span => charsBefore span.start source.toList
      | none => 0
    (place? source.toList offset).map fun place => (place.line + 1, place.column + 1)

/-- The two lines under a source line: the underline, and the message on its
hook. -/
def drawUnderline (u : Underline) : List String :=
  let marks := (List.range (u.stop - u.start)).map fun i =>
    if u.start + i = u.anchor then "┬" else "─"
  [times u.start " " ++ String.join marks,
    times u.anchor " " ++ "╰" ++ times (u.stop + 1 - u.anchor) "─" ++ " " ++ u.message]

/-- Help and notes, each after an empty line of the margin. -/
def drawRemarks (margin : String) (d : Diagnostic) : List String :=
  let remarks := d.help.toList.map ("Help: " ++ ·) ++ d.notes.map ("Note: " ++ ·)
  remarks.flatMap fun remark => [margin, margin ++ " " ++ remark]

/-- The lines of a report without colours. -/
def draw (d : Diagnostic) (source : String) : List String :=
  match location? d source with
  | none => header d :: drawRemarks "   │" d
  | some (line, column) =>
    let digits := (toString line).length
    let margin := times (digits + 2) " " ++ "│"
    let body := match d.labels.map (underline? source.toList) with
      | [some u] =>
        let text := String.ofList (u.text.reverse.dropWhile isBlank).reverse
        [margin, s!" {u.line + 1} │ {text}"]
          ++ (drawUnderline u).map (margin ++ " " ++ ·)
      | _ => []
    [header d, times (digits + 2) " " ++ s!"╭─[<unknown>:{line}:{column}]"] ++ body
      ++ drawRemarks margin d ++ [times (digits + 2) "─" ++ "╯"]

end Report

end UiScript
