/-
The productions as plain functions. Each production of the parser carries a
bound on what it leaves ahead, which is what makes the recursion well
founded; statements about what is read have no use for the bound. Here every
production is given without it, together with the equation that says what
the production does. Nothing outside this module opens the parser.

# Main statements

* `chain_eq`, `links_eq`, `parenthesized_eq`, `arguments_eq`,
  `argumentList_eq`, `body_eq`, `statements_eq`, `readProgram_eq`,
  `parse_eq`: what the productions do that have one case.
* `primary_of_literal` and the like: what the others do, by case.
* `size_lt_of_chain` and the like: what is left ahead.
-/
import UiScript.Proofs.Reading.Cursor
import UiScript.Program.Parse

namespace UiScript

/-- What is bound succeeds exactly if both parts do. -/
theorem bind_eq_ok_iff {ε α β : Type} {x : Except ε α} {f : α → Except ε β} {b : β} :
    x >>= f = .ok b ↔ ∃ a, x = .ok a ∧ f a = .ok b := by
  cases x with
  | error e => simp [bind, Except.bind]
  | ok a => simp [bind, Except.bind]

namespace Parsed

/-- What a production comes to, without the bound on what is left ahead. -/
def plain {n : Nat} {α : Type} (r : Except ParseFailure (Parsed n α)) :
    Except ParseFailure (α × ParseState) :=
  r.map fun p => (p.value, p.state)

/-- Forgetting the bound goes through one production after another. -/
theorem plain_bind {n m : Nat} {α β : Type} {r : Except ParseFailure (Parsed m α)}
    {f : Parsed m α → Except ParseFailure (Parsed n β)}
    {g : α × ParseState → Except ParseFailure (β × ParseState)}
    (h : ∀ p, plain (f p) = g (p.value, p.state)) : plain (r >>= f) = plain r >>= g := by
  cases r with
  | error e => rfl
  | ok p => exact h p

/-- A bound that is made wider is forgotten all the same. -/
theorem plain_widen {m n : Nat} {α : Type} (h : m ≤ n) (r : Except ParseFailure (Parsed m α)) :
    plain (r >>= fun p => pure (p.widen h)) = plain r := by
  cases r <;> rfl

/-- The bound that was forgotten still holds of what is read. -/
theorem size_lt_of_plain {n : Nat} {α : Type} {r : Except ParseFailure (Parsed n α)}
    {p : α × ParseState} (h : plain r = .ok p) : p.2.size < n := by
  cases r with
  | error e => cases h
  | ok q =>
    cases h
    exact q.size_lt

end Parsed

namespace ParseRules

variable (rules : ParseRules)

-- ============================================================== productions

/-- An expression and the calls chained to it. -/
def chain (s : ParseState) : Except ParseFailure (Expr × ParseState) :=
  Parsed.plain (rules.readChain s)

/-- The bound that a chain starts with: less is ahead than one more than what
is ahead. -/
theorem size_lt_succ (s : ParseState) : s.size < s.size.succ := Nat.lt_succ_self s.size

/-- The calls chained to `soFar`. -/
def links (count : Nat) (soFar : Expr) (s : ParseState) : Except ParseFailure (Expr × ParseState) :=
  Parsed.plain (rules.readLinks count soFar s (size_lt_succ s))

/-- A call, a literal, or an expression in parentheses. -/
def primary (s : ParseState) : Except ParseFailure (Expr × ParseState) :=
  Parsed.plain (rules.readPrimary s)

/-- A literal. -/
def literal (s : ParseState) (value : Literal) (h : s.cursor.atEnd = false) :
    Except ParseFailure (Expr × ParseState) :=
  Parsed.plain (rules.readLiteral s value h)

/-- An expression in parentheses. -/
def parenthesized (s : ParseState) (h : s.cursor.atEnd = false) :
    Except ParseFailure (Expr × ParseState) :=
  Parsed.plain (rules.readParenthesized s h)

/-- A call. -/
def call (receiver : Option Expr) (s : ParseState) : Except ParseFailure (Call × ParseState) :=
  Parsed.plain (rules.readCall receiver s)

/-- The arguments of a call, if there are any. -/
def arguments (s : ParseState) : Except ParseFailure (List Argument × ParseState) :=
  Parsed.plain (rules.readArguments s)

/-- Arguments up to the end of the list. -/
def argumentList (before : List Argument) (s : ParseState) :
    Except ParseFailure (List Argument × ParseState) :=
  Parsed.plain (rules.readArgumentList before s)

/-- One argument. -/
def argument (before : List Argument) (s : ParseState) :
    Except ParseFailure (Argument × ParseState) :=
  Parsed.plain (rules.readArgument before s)

/-- The block of a call, if there is one. -/
def block (s : ParseState) : Except ParseFailure (Option Block × ParseState) :=
  Parsed.plain (rules.readBlock s)

/-- A block. -/
def body (delimiter : Delimiter) (s : ParseState) (h : s.cursor.atEnd = false) :
    Except ParseFailure (Block × ParseState) :=
  Parsed.plain (rules.readBody delimiter s h)

/-- The statements of a block. -/
def statements (delimiter : Delimiter) (opened : Span) (before : List Expr) (s : ParseState) :
    Except ParseFailure (List Expr × ParseState) :=
  Parsed.plain (rules.readStatements delimiter opened before s)

/-- Puts a literal to the policy, if strings are put to it. -/
def admitLiteral (value : Literal) (span : Span) : Except ParseFailure Unit :=
  match value with
  | .string text =>
    if rules.options.strictLiterals then refuse (Policy.checkLiteral text span) else .ok ()
  | _ => .ok ()

-- =========================================================== what they leave

variable {rules}

/-- A chain takes at least one token. -/
theorem size_lt_of_chain {s t : ParseState} {e : Expr} (h : rules.chain s = .ok (e, t)) :
    t.size < s.size :=
  Parsed.size_lt_of_plain h

theorem size_lt_of_call {receiver : Option Expr} {s t : ParseState} {c : Call}
    (h : rules.call receiver s = .ok (c, t)) : t.size < s.size :=
  Parsed.size_lt_of_plain h

/-- Arguments may be left out, and then nothing is taken. -/
theorem size_le_of_arguments {s t : ParseState} {args : List Argument}
    (h : rules.arguments s = .ok (args, t)) : t.size ≤ s.size :=
  Nat.le_of_lt_succ (Parsed.size_lt_of_plain h)

theorem size_lt_of_argument {before : List Argument} {s t : ParseState} {arg : Argument}
    (h : rules.argument before s = .ok (arg, t)) : t.size < s.size :=
  Parsed.size_lt_of_plain h

theorem size_lt_of_primary {s t : ParseState} {e : Expr} (h : rules.primary s = .ok (e, t)) :
    t.size < s.size :=
  Parsed.size_lt_of_plain h

variable (rules)

-- ==================================================== chains and primaries

/-- The bound on what is left ahead does not change what is read. -/
theorem plain_readLinks {bound : Nat} (count : Nat) (soFar : Expr) (s : ParseState)
    (hs : s.size < bound) :
    Parsed.plain (rules.readLinks count soFar s hs) = rules.links count soFar s := by
  rw [links, readLinks, readLinks]
  split
  · next hmark =>
    split
    · rfl
    · have hadvance := ParseState.size_advance_lt (Cursor.atEnd_eq_false_of_atMark hmark)
      refine (Parsed.plain_bind (g := fun p => rules.links (count + 1) (.call p.1) p.2) ?_).trans
        (Parsed.plain_bind ?_).symm
      · intro p
        exact plain_readLinks ..
      · intro p
        exact plain_readLinks ..
  · rfl
termination_by s.size
decreasing_by
  all_goals
    have := p.size_lt
    omega

/-- A chain is a primary with links behind it, which are counted from zero. -/
theorem chain_eq (s : ParseState) :
    rules.chain s = rules.primary s >>= fun p => rules.links 0 p.1 p.2 := by
  rw [chain, readChain, primary]
  exact Parsed.plain_bind fun p => plain_readLinks ..

/-- Another link is read as long as a dot comes. The limit is looked at before
the call is read. -/
theorem links_eq (count : Nat) (soFar : Expr) (s : ParseState) :
    rules.links count soFar s =
      if s.cursor.atMark '.' = true then
        if rules.options.maxChain < count + 1 then
          .error (s.failHere (.chainTooLong rules.options.maxChain s.cursor.kind))
        else rules.call (some soFar) s.advance >>= fun p => rules.links (count + 1) (.call p.1) p.2
      else .ok (soFar, s) := by
  rw [links, readLinks]
  split
  · split
    · rfl
    · exact Parsed.plain_bind fun p => plain_readLinks ..
  · rfl

/-- A literal comes first among what a primary can be. -/
theorem primary_of_literal {s : ParseState} {value : Literal}
    (h : Literal.ofToken? s.cursor.kind = some value) :
    rules.primary s = rules.literal s value (atEnd_eq_false_of_literal h) := by
  rw [primary, readPrimary]
  split
  · next v hv =>
    obtain rfl : value = v := Option.some.inj (h.symm.trans hv)
    rfl
  · next hnone =>
    rw [h] at hnone
    cases hnone

/-- A name starts a call without a receiver. -/
theorem primary_of_identifier {s : ParseState} {name : String}
    (h : s.cursor.kind = .identifier name) :
    rules.primary s = rules.call none s >>= fun p => .ok (.call p.1, p.2) := by
  rw [primary, readPrimary]
  split
  · next v hv =>
    rw [h] at hv
    cases hv
  · split
    · exact Parsed.plain_bind fun p => rfl
    · next hkind => exact absurd h (hkind name)

/-- An opening parenthesis starts a chain in parentheses. -/
theorem primary_of_atMark {s : ParseState} (h : s.cursor.atMark '(' = true) :
    rules.primary s = rules.parenthesized s (Cursor.atEnd_eq_false_of_atMark h) := by
  rw [primary, readPrimary]
  split
  · next v hv =>
    rw [Token.Kind.isMark_iff.1 h] at hv
    cases hv
  · split
    · next hk =>
      rw [Token.Kind.isMark_iff.1 h] at hk
      cases hk
    · rw [dif_pos h]
      rfl

/-- Whatever else comes is no expression, and is told as what was found. -/
theorem primary_of_other {s : ParseState} (hliteral : Literal.ofToken? s.cursor.kind = none)
    (hname : ∀ name, s.cursor.kind ≠ .identifier name) (hmark : s.cursor.atMark '(' = false) :
    rules.primary s = .error (s.failHere (.missingExpression s.cursor.kind)) := by
  rw [primary, readPrimary]
  split
  · next v hv =>
    rw [hliteral] at hv
    cases hv
  · split
    · next hk => exact absurd hk (hname _)
    · rw [dif_neg (by simp [hmark])]
      rfl

/-- A literal is put to the policy, which only looks at it under strict rules,
and taken. -/
theorem literal_eq (s : ParseState) (value : Literal) (h : s.cursor.atEnd = false) :
    rules.literal s value h = rules.admitLiteral value s.cursor.span >>= fun _ =>
      .ok (.literal value s.cursor.span, s.advance) := by
  unfold literal readLiteral admitLiteral
  cases value with
  | string text =>
    dsimp only
    split
    · cases refuse (Policy.checkLiteral text s.cursor.span) <;> rfl
    · rfl
  | _ => rfl

/-- A chain in parentheses: one more delimiter is open while the chain is
read, and the closing one is expected behind it. The parentheses leave no
trace in the expression. -/
theorem parenthesized_eq (s : ParseState) (h : s.cursor.atEnd = false) :
    rules.parenthesized s h = (do
      let t ← s.advance.open? rules s.cursor.span
      let p ← rules.chain t
      let u ← p.2.expectClosing .parentheses s.cursor.span
      .ok (p.1, u.close)) := by
  rw [parenthesized, readParenthesized]
  split
  · next hopen =>
    rw [hopen]
    rfl
  · next hopen =>
    -- the bound on the left depends on `hopen`, so only the right side is rewritten
    conv => rhs; rw [hopen]
    refine Parsed.plain_bind fun p => ?_
    dsimp only
    split
    · next hclose =>
      rw [hclose]
      rfl
    · next hclose =>
      conv => rhs; rw [hclose]
      rfl

-- ==================================================================== calls

/-- A call: its name is put to the policy before the arguments and the block
are read. Its span starts with the receiver, if there is one, and ends with
the last token that was taken. -/
theorem call_of_identifier {s : ParseState} {name : String} (receiver : Option Expr)
    (h : s.cursor.kind = .identifier name) :
    rules.call receiver s = (do
      refuse (rules.policy.checkName name s.cursor.span)
      let p ← rules.arguments s.advance
      let q ← rules.block p.2
      .ok (⟨receiver, name, p.1, q.1,
        ⟨receiver.elim s.cursor.span.start (·.span.start), q.2.cursor.previousSpan.stop⟩⟩,
          q.2)) := by
  rw [call, readCall.eq_def]
  dsimp only
  split
  · next n hn =>
    obtain rfl : name = n := Token.Kind.identifier.inj (h.symm.trans hn)
    cases refuse (rules.policy.checkName name s.cursor.span) with
    | error e => rfl
    | ok _ =>
      refine Parsed.plain_bind fun p => ?_
      refine Parsed.plain_bind fun q => ?_
      cases receiver <;> rfl
  · next hk => exact absurd h (hk name)

/-- Behind a dot there must be a name. -/
theorem call_of_other {s : ParseState} (receiver : Option Expr)
    (h : ∀ name, s.cursor.kind ≠ .identifier name) :
    rules.call receiver s = .error (s.failHere (.missingName s.cursor.kind)) := by
  rw [call, readCall.eq_def]
  dsimp only
  split
  · next hk => exact absurd hk (h _)
  · rfl

/-- Arguments stand in parentheses, right behind the name, or are left out. -/
theorem arguments_eq (s : ParseState) :
    rules.arguments s =
      if s.cursor.atMark '(' = true then do
        let t ← s.advance.open? rules s.cursor.span
        let p ← rules.argumentList [] t
        let u ← p.2.expectClosing .arguments s.cursor.span
        .ok (p.1, u.close)
      else .ok ([], s) := by
  rw [arguments, readArguments]
  split
  · dsimp only
    split
    · next hopen =>
      rw [hopen]
      rfl
    · next hopen =>
      conv => rhs; rw [hopen]
      refine Parsed.plain_bind fun p => ?_
      dsimp only
      split
      · next hclose =>
        rw [hclose]
        rfl
      · next hclose =>
        conv => rhs; rw [hclose]
        rfl
  · rfl

/-- The list ends at the closing parenthesis, at the end of the input, or
where no comma comes behind an argument. A comma before the closing
parenthesis is taken. -/
theorem argumentList_eq (before : List Argument) (s : ParseState) :
    rules.argumentList before s =
      if Delimiter.arguments.closesAt s.cursor || s.cursor.atEnd then .ok (before.reverse, s)
      else rules.argument before s >>= fun p =>
        if p.2.cursor.atMark ',' then rules.argumentList (p.1 :: before) p.2.advance
        else .ok ((p.1 :: before).reverse, p.2) := by
  rw [argumentList, readArgumentList]
  split
  · rfl
  · refine Parsed.plain_bind fun p => ?_
    dsimp only
    split
    · exact Parsed.plain_widen ..
    · rfl

/-- There is a key where a name is followed by a colon. -/
theorem keyAt_eq_some_iff {c : Cursor} {key : String} :
    keyAt c = some key ↔ c.kind = .identifier key ∧ c.peekKind = .punctuation ':' := by
  unfold keyAt
  split
  · next name hname =>
    rw [hname]
    split
    · next hcolon =>
      rw [Token.Kind.isMark_iff] at hcolon
      simp [hcolon]
    · next hcolon =>
      rw [Token.Kind.isMark_iff] at hcolon
      simp [hcolon]
  · next hname =>
    simp only [reduceCtorEq, false_iff, not_and]
    intro hkind
    exact absurd hkind (hname key)

/-- Behind a key stands its colon. -/
theorem kind_advance_of_keyAt {s : ParseState} {key : String} (hs : s.cursor.Rests)
    (h : keyAt s.cursor = some key) : s.advance.cursor.kind = .punctuation ':' := by
  rw [← (keyAt_eq_some_iff.1 h).2]
  exact Cursor.kind_advance hs (atEnd_eq_false_of_keyAt h)

/-- An argument with a key: the key must be new, and the value comes behind
the colon. -/
theorem argument_of_keyAt {before : List Argument} {s : ParseState} {key : String}
    (h : keyAt s.cursor = some key) :
    rules.argument before s =
      if (argumentKeys before).contains key then .error (s.failHere (.duplicateKey key))
      else rules.chain s.advance.advance >>= fun p =>
        .ok (.named key p.1 (s.cursor.span.merge p.1.span), p.2) := by
  rw [argument, readArgument]
  dsimp only
  split
  · next k hk =>
    obtain rfl : key = k := Option.some.inj (h.symm.trans hk)
    split
    · rfl
    · exact Parsed.plain_bind fun p => rfl
  · next hk =>
    rw [h] at hk
    cases hk

/-- An argument without a key must not come behind one that has a key. -/
theorem argument_of_no_key {before : List Argument} {s : ParseState}
    (h : keyAt s.cursor = none) :
    rules.argument before s =
      if !(argumentKeys before).isEmpty then
        .error (s.failHere (.positionalAfterNamed s.cursor.kind))
      else rules.chain s >>= fun p => .ok (.positional p.1, p.2) := by
  rw [argument, readArgument]
  dsimp only
  split
  · next hk =>
    rw [h] at hk
    cases hk
  · split
    · rfl
    · exact Parsed.plain_bind fun p => rfl

-- =================================================================== blocks

theorem block_of_keyword {s : ParseState} (h : s.cursor.atKeyword .opensBlock = true) :
    rules.block s = rules.body .keywords s (Cursor.atEnd_eq_false_of_atKeyword h) >>= fun p =>
      .ok (some p.1, p.2) := by
  rw [block, readBlock, dif_pos h]
  exact Parsed.plain_bind fun p => rfl

theorem block_of_mark {s : ParseState} (hkeyword : s.cursor.atKeyword .opensBlock = false)
    (h : s.cursor.atMark '\x7b' = true) :
    rules.block s = rules.body .braces s (Cursor.atEnd_eq_false_of_atMark h) >>= fun p =>
      .ok (some p.1, p.2) := by
  rw [block, readBlock, dif_neg (by simp [hkeyword]), dif_pos h]
  exact Parsed.plain_bind fun p => rfl

/-- Without an opening keyword or brace there is no block, and nothing is
taken. -/
theorem block_of_other {s : ParseState} (hkeyword : s.cursor.atKeyword .opensBlock = false)
    (hmark : s.cursor.atMark '\x7b' = false) : rules.block s = .ok (none, s) := by
  rw [block, readBlock, dif_neg (by simp [hkeyword]), dif_neg (by simp [hmark])]
  rfl

/-- A block is what stands between delimiters, or it is left out and nothing
is taken. -/
theorem block_cases (s : ParseState) :
    (∃ delimiter, ∃ hend : s.cursor.atEnd = false,
      rules.block s = rules.body delimiter s hend >>= fun p => .ok (some p.1, p.2))
    ∨ rules.block s = .ok (none, s) := by
  cases hkeyword : s.cursor.atKeyword .opensBlock with
  | true => exact .inl ⟨_, _, block_of_keyword rules hkeyword⟩
  | false =>
    cases hmark : s.cursor.atMark '\x7b' with
    | true => exact .inl ⟨_, _, block_of_mark rules hkeyword hmark⟩
    | false => exact .inr (block_of_other rules hkeyword hmark)

/-- The body of a block: one more delimiter is open while its statements are
read. -/
theorem body_eq (delimiter : Delimiter) (s : ParseState) (h : s.cursor.atEnd = false) :
    rules.body delimiter s h = (do
      let t ← s.advance.open? rules s.cursor.span
      let p ← rules.statements delimiter s.cursor.span [] t
      .ok (⟨p.1, s.cursor.span.merge p.2.cursor.span⟩, p.2.advance.close)) := by
  rw [body, readBody]
  split
  · next hopen =>
    rw [hopen]
    rfl
  · next hopen =>
    conv => rhs; rw [hopen]
    exact Parsed.plain_bind fun p => rfl

/-- Statements are read up to the closing mark of the block, with separators
before each. The end of the input is an unclosed block. -/
theorem statements_eq (delimiter : Delimiter) (opened : Span) (before : List Expr)
    (s : ParseState) :
    rules.statements delimiter opened before s =
      if delimiter.closesAt s.skipSeparators.cursor then .ok (before.reverse, s.skipSeparators)
      else if s.skipSeparators.cursor.atEnd then
        .error (s.skipSeparators.failHere (.unclosed delimiter opened s.skipSeparators.cursor.kind))
      else rules.chain s.skipSeparators >>= fun p =>
        rules.statements delimiter opened (p.1 :: before) p.2 := by
  rw [statements, readStatements]
  dsimp only
  split
  · rfl
  · split
    · rfl
    · exact Parsed.plain_bind fun p => Parsed.plain_widen ..

/-- A program is read up to the end of the input, with separators behind each
statement. -/
theorem readProgram_eq (before : List Expr) (s : ParseState) :
    rules.readProgram before s =
      if s.cursor.atEnd then .ok before.reverse
      else rules.chain s >>= fun p => rules.readProgram (p.1 :: before) p.2.skipSeparators := by
  rw [readProgram, chain]
  split
  · rfl
  · cases rules.readChain s <;> rfl

/-- The state that a program is read from: past the first separators, with
nothing open. -/
def startOf (tokens : List Token) : ParseState :=
  ⟨(Cursor.ofTokens tokens).skipSeparators, 0⟩

/-- Marks are looked at in the whole list of tokens before anything is read; a
program without statements is an error of its own. -/
theorem parse_eq (tokens : List Token) :
    rules.parse tokens = refuse (checkMarks tokens) >>= fun _ =>
      if (startOf tokens).cursor.atEnd then .error ((startOf tokens).failHere .emptyInput)
      else rules.readProgram [] (startOf tokens) >>= fun statements => .ok (rootOf statements) := by
  unfold parse
  cases refuse (checkMarks tokens) with
  | error e => rfl
  | ok _ =>
    show (if (startOf tokens).cursor.atEnd = true then _ else _) = _
    split <;> rfl

end ParseRules

end UiScript
