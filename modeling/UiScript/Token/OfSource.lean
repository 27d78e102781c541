/-
The tokens of a source: lexemes one after another, with spaces between
them, and at the end a token for the end of the input. Comments are tokens
too, which a scan either keeps or leaves out. Positions count bytes; past
`Span.maxOffset` they stay at the limit.

# Main statements

* `scanWith_eq_map` — tokens scanned earlier stay in front of those still to
  come, and what is left out makes no difference to them.
* `ofSource_eq_map` — leaving comments out is all that `ofSource` adds.
-/
import UiScript.Token.Lexeme

namespace UiScript

open Text

namespace Token

/-- The same token, `distance` bytes further on. -/
def shift (distance : Nat) (t : Token) : Token := ⟨t.kind, t.span.shift distance⟩

/-- The token with its span held within the limit. -/
def saturate (t : Token) : Token := ⟨t.kind, t.span.saturate⟩

-- ============================================================== scanning

/-- Whether a line begins after the spaces that were skipped from `position`
on. -/
def beginsLine (position : Nat) (spaces : List Char) : Bool :=
  match spaces.getLast? with
  | none => position == 0
  | some c => c == '\n'

/-- Whether a scan keeps a token: `comments` says whether comments are kept. -/
def isKept (comments : Bool) (t : Token) : Bool := comments || !t.isComment

/--
The tokens of `source`, which starts at the byte `position`; `tokens` stand before it, the last one
first. Comments are kept or left out.
-/
def scanWith (comments : Bool) (tokens : List Token) (position : Nat) (source : List Char) :
    Except LexicalError (List Token) :=
  let spaces := source.takeWhile Lexeme.isSpace
  let start := position + width spaces
  match hbody : source.dropWhile Lexeme.isSpace with
  | [] => .ok (⟨.endOfInput, .point start⟩ :: tokens).reverse
  | c :: cs =>
    match hlexeme : Lexeme.ofChars (beginsLine position spaces) c cs with
    | .error e => .error (e.shift start)
    | .ok x =>
      have : x.rest.length < source.length := by
        have hrest := Lexeme.rest_length_lt hlexeme
        have hdrop := (List.dropWhile_sublist (l := source) Lexeme.isSpace).length_le
        rw [hbody] at hdrop
        omega
      let stop := start + width x.text
      let token : Token := ⟨x.kind, ⟨start, stop⟩⟩
      scanWith comments (if token.isKept comments then token :: tokens else tokens) stop x.rest
termination_by source.length

/-- The tokens of `source`, comments included. -/
def scan : List Token → Nat → List Char → Except LexicalError (List Token) := scanWith true

/-- The tokens of a whole source, within the limit of offsets. -/
def ofSourceKeeping (comments : Bool) (source : String) : Except LexicalError (List Token) :=
  match scanWith comments [] 0 source.toList with
  | .error e => .error e.saturate
  | .ok tokens => .ok (tokens.map saturate)

/-- The tokens of a source, comments included. -/
def ofSourceWithComments : String → Except LexicalError (List Token) := ofSourceKeeping true

/-- The tokens of a source, comments left out. -/
def ofSource : String → Except LexicalError (List Token) := ofSourceKeeping false

-- ================================================================== laws

@[simp] theorem isKept_true (t : Token) : t.isKept true = true := rfl

theorem filter_isKept_true (tokens : List Token) : tokens.filter (isKept true) = tokens :=
  List.filter_eq_self.2 fun _ _ => rfl

/-- What has been scanned stays in front, and of what is still to come the
comments are kept or left out. -/
theorem scanWith_eq_map (comments : Bool) (tokens : List Token) (position : Nat)
    (source : List Char) :
    scanWith comments tokens position source
      = (scan [] position source).map (tokens.reverse ++ List.filter (isKept comments) ·) := by
  suffices h : ∀ n, ∀ source : List Char, source.length ≤ n → ∀ comments tokens position,
      scanWith comments tokens position source
        = (scan [] position source).map (tokens.reverse ++ List.filter (isKept comments) ·) from
    h _ source (Nat.le_refl _) comments tokens position
  intro n
  induction n with
  | zero =>
    intro source hlen comments tokens position
    have : source = [] := List.length_eq_zero_iff.1 (Nat.le_zero.1 hlen)
    subst this
    unfold scan
    rw [scanWith, scanWith.eq_def true []]
    simp [Except.map, isKept, isComment, Kind.isComment]
  | succ n ih =>
    intro source hlen comments tokens position
    unfold scan
    rw [scanWith, scanWith.eq_def true []]
    dsimp only
    split
    · simp [Except.map, isKept, isComment, Kind.isComment]
    · next c cs hbody =>
      split
      · rfl
      · next x hlexeme =>
        have hrest := Lexeme.rest_length_lt hlexeme
        have hdrop := (List.dropWhile_sublist (l := source) Lexeme.isSpace).length_le
        rw [hbody] at hdrop
        have hle : x.rest.length ≤ n := by omega
        rw [ih _ hle, ih _ hle true]
        generalize Token.mk x.kind _ = token
        cases scan [] _ x.rest with
        | error e => rfl
        | ok ts =>
          by_cases hkept : token.isKept comments = true
          · simp [Except.map, hkept, filter_isKept_true]
          · simp [Except.map, hkept, filter_isKept_true]

/-- Tokens scanned earlier stay in front of those still to come. -/
theorem scan_eq_map (tokens : List Token) (position : Nat) (source : List Char) :
    scan tokens position source = (scan [] position source).map (tokens.reverse ++ ·) := by
  unfold scan
  rw [scanWith_eq_map]
  simp only [filter_isKept_true]
  rfl

/-- Leaving comments out is all that `ofSource` adds. The scan does not know
whether comments are kept, and its failures are the same. -/
theorem ofSource_eq_map (source : String) :
    ofSource source = (ofSourceWithComments source).map (List.filter fun t => !t.isComment) := by
  unfold ofSource ofSourceWithComments ofSourceKeeping
  rw [scanWith_eq_map false, ← scan]
  cases scan [] 0 source.toList with
  | error e => rfl
  | ok tokens =>
    show Except.ok ((tokens.filter _).map saturate) = Except.ok ((tokens.map saturate).filter _)
    rw [List.filter_map]
    rfl

end Token

end UiScript
