/-
All that is checked while a program is read, in the order of the source: its
words, which are put to the policy, and its loads, which are held against the
limits. An opening delimiter is a load with the number of delimiters that
are open with it, and a point is one with its number in the chain. A
derivation says what is checked without any rules; rules say what becomes of
it, and the first check that fails ends the reading (`Inspected`).

# Main statements

* `Chain.words_checks` and its kin: the words among the checks are those of
  the derivation.
* `Chain.spans_loads` and its kin: each token that opens a delimiter and each
  point has its load.
* `Inspected.bind`: parts that are read one after the other are inspected one
  after the other.
* `inspect_eq_review`: where no load is too much, the policy decides.
-/
import UiScript.Proofs.Grammar.Review

namespace UiScript

open Token (mark front)

-- ===================================================================== loads

/-- What the limits of a program are about: `opening` is a delimiter, with the
number of delimiters that are open with it and the kind of the token behind
it, and `link` is the point of a call, with its number in its chain. -/
inductive Load where
  | opening (level : Nat) (span : Span) (found : Token.Kind)
  | link (number : Nat) (span : Span)

namespace Load

/-- Where a load stands. -/
def span : Load → Span
  | .opening _ span _ => span
  | .link _ span => span

/-- What is said of a load that is too much. -/
def excess? (maxDepth maxChain : Nat) : Load → Option SyntaxError
  | .opening level span found =>
    if level ≤ maxDepth then none else some ⟨span, .nestingTooDeep maxDepth found⟩
  | .link number span =>
    if number ≤ maxChain then none else some ⟨span, .chainTooLong maxChain (.punctuation '.')⟩

end Load

/-- Something that is checked while a program is read. -/
inductive Check where
  | word (role : Role) (span : Span)
  | load (load : Load)

/-- The words among some checks, and where they stand. -/
def wordsOf : List Check → List (Role × Span)
  | [] => []
  | .word role span :: checks => (role, span) :: wordsOf checks
  | .load _ :: checks => wordsOf checks

/-- The loads among some checks. -/
def loadsOf : List Check → List Load
  | [] => []
  | .word .. :: checks => loadsOf checks
  | .load load :: checks => load :: loadsOf checks

theorem wordsOf_append (checks more : List Check) :
    wordsOf (checks ++ more) = wordsOf checks ++ wordsOf more := by
  induction checks with
  | nil => rfl
  | cons check checks ih => cases check <;> simp [wordsOf, ih]

theorem loadsOf_append (checks more : List Check) :
    loadsOf (checks ++ more) = loadsOf checks ++ loadsOf more := by
  induction checks with
  | nil => rfl
  | cons check checks ih => cases check <;> simp [loadsOf, ih]

namespace Token

/-- Whether a token opens a delimiter, or is the point of a call. -/
def Kind.isLoad (kind : Kind) : Bool :=
  kind.isMark '(' || kind.isMark '\x7b' || kind.isKeyword .opensBlock || kind.isMark '.'

/-- Where tokens open delimiters, or are the points of calls. -/
def loadSpans (ts : List Token) : List Span := (ts.filter fun t => t.kind.isLoad).map Token.span

theorem loadSpans_append (ts us : List Token) :
    loadSpans (ts ++ us) = loadSpans ts ++ loadSpans us := by
  simp [loadSpans]

/-- A token that opens or is a point comes first among the loads, with its
span. -/
theorem loadSpans_cons_of_isLoad {t : Token} (h : t.kind.isLoad = true) (ts : List Token) :
    loadSpans (t :: ts) = t.span :: loadSpans ts := by
  simp [loadSpans, h]

theorem loadSpans_cons_of_not {t : Token} (h : t.kind.isLoad = false) (ts : List Token) :
    loadSpans (t :: ts) = loadSpans ts := by
  simp [loadSpans, h]

/-- What stands between an opening token and a closing one. -/
theorem loadSpans_delimited {t u : Token} (ht : t.kind.isLoad = true) (hu : u.kind.isLoad = false)
    (ts : List Token) : loadSpans (t :: (ts ++ [u])) = t.span :: loadSpans ts := by
  rw [loadSpans_cons_of_isLoad ht, loadSpans_append, loadSpans_cons_of_not hu]
  simp [loadSpans]

theorem loadSpans_separators (spans : List Span) : loadSpans (spans.map (mark ';')) = [] := by
  induction spans with
  | nil => rfl
  | cons span spans ih =>
    rw [List.map_cons, loadSpans_cons_of_not rfl]
    exact ih

end Token

-- =============================================================== derivations

namespace Derivation

mutual
/-- What is checked; `level` delimiters are open around it. -/
def Chain.checks (level : Nat) : Chain → List Check
  | .mk first links => first.checks level ++ links.checks level 1

/-- What is checked; the first link is the one with the given number in its
chain. -/
def Links.checks (level number : Nat) : Links → List Check
  | .none => []
  | .more point call rest =>
    .load (.link number point) :: (call.checks level ++ rest.checks level (number + 1))

def Primary.checks (level : Nat) : Primary → List Check
  | .call call => call.checks level
  | .literal value span => [.word (.literal value) span]
  | .parenthesized opened inner _ =>
    .load (.opening (level + 1) opened (front (.punctuation ')') inner.tokens))
      :: inner.checks (level + 1)

def Call.checks (level : Nat) : Call → List Check
  | .mk name span args block => .word (.called name) span :: (args.checks level ++ block.checks level)

def Arguments.checks (level : Nat) : Arguments → List Check
  | .none => []
  | .list opened items _ =>
    .load (.opening (level + 1) opened (front (.punctuation ')') items.tokens))
      :: items.checks (level + 1)

def ArgumentList.checks (level : Nat) : ArgumentList → List Check
  | .none => []
  | .last arg => arg.checks level
  | .more arg _ rest => arg.checks level ++ rest.checks level

def Argument.checks (level : Nat) : Argument → List Check
  | .positional value => value.checks level
  | .named key span _ value => .word (.key key) span :: value.checks level

def Block.checks (level : Nat) : Block → List Check
  | .none => []
  | .fenced fence opened body _ =>
    .load (.opening (level + 1) opened (front fence.closing body.tokens)) :: body.checks (level + 1)

def Body.checks (level : Nat) : Body → List Check
  | .done _ => []
  | .more _ statement rest => statement.checks level ++ rest.checks level
end

/-- What is checked of a program. -/
def Program.checks (d : Program) : List Check := d.first.checks 0 ++ d.rest.checks 0

/-- The loads of a program, in the order of the source. -/
def Program.loads (d : Program) : List Load := loadsOf d.checks

-- --------------------------------------------------------------------- words

mutual
/-- The words among the checks are those of the derivation. Loads are
interspersed with them and change nothing of their order. -/
theorem Chain.words_checks : ∀ (d : Chain) (level : Nat), wordsOf (d.checks level) = d.roles
  | .mk first links, level => by
    rw [Chain.checks, wordsOf_append, first.words_checks, links.words_checks, Chain.roles]

/-- The words among the checks of links. The numbers of the links do not
matter to them. -/
theorem Links.words_checks : ∀ (d : Links) (level number : Nat),
    wordsOf (d.checks level number) = d.roles
  | .none, _, _ => rfl
  | .more point call rest, level, number => by
    rw [Links.checks, wordsOf, wordsOf_append, call.words_checks, rest.words_checks, Links.roles]

theorem Primary.words_checks : ∀ (d : Primary) (level : Nat), wordsOf (d.checks level) = d.roles
  | .call call, level => call.words_checks level
  | .literal .., _ => rfl
  | .parenthesized _ inner _, level => inner.words_checks (level + 1)

/-- The words among the checks of a call: its name, those of the arguments, of
the block. -/
theorem Call.words_checks : ∀ (d : Call) (level : Nat), wordsOf (d.checks level) = d.roles
  | .mk name span args block, level => by
    rw [Call.checks, wordsOf, wordsOf_append, args.words_checks, block.words_checks, Call.roles]

theorem Arguments.words_checks : ∀ (d : Arguments) (level : Nat),
    wordsOf (d.checks level) = d.roles
  | .none, _ => rfl
  | .list _ items _, level => items.words_checks (level + 1)

theorem ArgumentList.words_checks : ∀ (d : ArgumentList) (level : Nat),
    wordsOf (d.checks level) = d.roles
  | .none, _ => rfl
  | .last arg, level => arg.words_checks level
  | .more arg _ rest, level => by
    rw [ArgumentList.checks, wordsOf_append, arg.words_checks, rest.words_checks,
      ArgumentList.roles]

theorem Argument.words_checks : ∀ (d : Argument) (level : Nat), wordsOf (d.checks level) = d.roles
  | .positional value, level => value.words_checks level
  | .named key span _ value, level => by
    rw [Argument.checks, wordsOf, value.words_checks, Argument.roles]

theorem Block.words_checks : ∀ (d : Block) (level : Nat), wordsOf (d.checks level) = d.roles
  | .none, _ => rfl
  | .fenced _ _ body _, level => body.words_checks (level + 1)

theorem Body.words_checks : ∀ (d : Body) (level : Nat), wordsOf (d.checks level) = d.roles
  | .done _, _ => rfl
  | .more _ statement rest, level => by
    rw [Body.checks, wordsOf_append, statement.words_checks, rest.words_checks, Body.roles]
end

/-- The words among the checks of a program are its words. -/
theorem Program.words_checks (d : Program) : wordsOf d.checks = d.roles :=
  (Body.more d.separators d.first d.rest).words_checks 0

-- --------------------------------------------------------------------- loads

theorem Fence.isLoad_opening (fence : Fence) : fence.opening.isLoad = true := by
  cases fence <;> rfl

theorem Fence.isLoad_closing (fence : Fence) : fence.closing.isLoad = false := by
  cases fence <;> rfl

mutual
/-- Each token that opens a delimiter and each point has its load, in the
order of the source. -/
theorem Chain.spans_loads : ∀ (d : Chain) (level : Nat),
    (loadsOf (d.checks level)).map Load.span = Token.loadSpans d.tokens
  | .mk first links, level => by
    rw [Chain.checks, loadsOf_append, List.map_append, first.spans_loads, links.spans_loads,
      Chain.tokens, Token.loadSpans_append]

/-- The loads of links: the dot of each, and those of its call. -/
theorem Links.spans_loads : ∀ (d : Links) (level number : Nat),
    (loadsOf (d.checks level number)).map Load.span = Token.loadSpans d.tokens
  | .none, _, _ => rfl
  | .more point call rest, level, number => by
    rw [Links.checks, loadsOf, loadsOf_append, List.map_cons, List.map_append, call.spans_loads,
      rest.spans_loads, Links.tokens, Token.loadSpans_cons_of_isLoad rfl, Token.loadSpans_append]
    rfl

theorem Primary.spans_loads : ∀ (d : Primary) (level : Nat),
    (loadsOf (d.checks level)).map Load.span = Token.loadSpans d.tokens
  | .call call, level => call.spans_loads level
  | .literal value _, _ => by cases value <;> rfl
  | .parenthesized opened inner closed, level => by
    rw [Primary.checks, loadsOf, List.map_cons, inner.spans_loads, Primary.tokens,
      Token.loadSpans_delimited rfl rfl]
    rfl

/-- The loads of a call are those of its arguments and of its block. -/
theorem Call.spans_loads : ∀ (d : Call) (level : Nat),
    (loadsOf (d.checks level)).map Load.span = Token.loadSpans d.tokens
  | .mk name span args block, level => by
    rw [Call.checks, loadsOf, loadsOf_append, List.map_append, args.spans_loads, block.spans_loads,
      Call.tokens, Token.loadSpans_cons_of_not rfl, Token.loadSpans_append]

theorem Arguments.spans_loads : ∀ (d : Arguments) (level : Nat),
    (loadsOf (d.checks level)).map Load.span = Token.loadSpans d.tokens
  | .none, _ => rfl
  | .list opened items closed, level => by
    rw [Arguments.checks, loadsOf, List.map_cons, items.spans_loads, Arguments.tokens,
      Token.loadSpans_delimited rfl rfl]
    rfl

theorem ArgumentList.spans_loads : ∀ (d : ArgumentList) (level : Nat),
    (loadsOf (d.checks level)).map Load.span = Token.loadSpans d.tokens
  | .none, _ => rfl
  | .last arg, level => arg.spans_loads level
  | .more arg comma rest, level => by
    rw [ArgumentList.checks, loadsOf_append, List.map_append, arg.spans_loads, rest.spans_loads,
      ArgumentList.tokens, Token.loadSpans_append, Token.loadSpans_cons_of_not rfl]

theorem Argument.spans_loads : ∀ (d : Argument) (level : Nat),
    (loadsOf (d.checks level)).map Load.span = Token.loadSpans d.tokens
  | .positional value, level => value.spans_loads level
  | .named key span colon value, level => by
    rw [Argument.checks, loadsOf, value.spans_loads, Argument.tokens,
      Token.loadSpans_cons_of_not rfl, Token.loadSpans_cons_of_not rfl]

theorem Block.spans_loads : ∀ (d : Block) (level : Nat),
    (loadsOf (d.checks level)).map Load.span = Token.loadSpans d.tokens
  | .none, _ => rfl
  | .fenced fence opened body closed, level => by
    rw [Block.checks, loadsOf, List.map_cons, body.spans_loads, Block.tokens,
      Token.loadSpans_delimited fence.isLoad_opening fence.isLoad_closing]
    rfl

theorem Body.spans_loads : ∀ (d : Body) (level : Nat),
    (loadsOf (d.checks level)).map Load.span = Token.loadSpans d.tokens
  | .done separators, _ => (Token.loadSpans_separators separators).symm
  | .more separators statement rest, level => by
    rw [Body.checks, loadsOf_append, List.map_append, statement.spans_loads, rest.spans_loads,
      Body.tokens, Token.loadSpans_append, Token.loadSpans_separators, Token.loadSpans_append]
    rfl
end

/-- Each token of a program that opens a delimiter and each point has its
load. -/
theorem Program.spans_loads (d : Program) : d.loads.map Load.span = Token.loadSpans d.tokens :=
  (Body.more d.separators d.first d.rest).spans_loads 0

end Derivation

namespace ParseRules

variable (rules : ParseRules)

-- ================================================================ inspection

/-- Holds a load against the limits. -/
def admitLoad (load : Load) : Except ParseFailure Unit :=
  match load.excess? rules.options.maxDepth rules.options.maxChain with
  | none => .ok ()
  | some e => .error (.grammar e)

/-- Checks what is to be checked. -/
def examine : Check → Except ParseFailure Unit
  | .word role span => rules.admitRole role span
  | .load load => rules.admitLoad load

/-- Checks one thing after the other, up to the first that fails. -/
def inspect : List Check → Except ParseFailure Unit
  | [] => .ok ()
  | check :: checks => rules.examine check >>= fun _ => inspect checks

/-- A reading is an inspection: it comes to `a` unless one of the checks
fails. -/
def Inspected {α : Type} (checks : List Check) (reading : Except ParseFailure α) (a : α) : Prop :=
  reading = rules.inspect checks >>= fun _ => .ok a

variable {rules}
variable {α β : Type} {checks more : List Check} {reading : Except ParseFailure α} {a : α}

/-- Checks are made one after the other; if the first ones fail, the others
are not made. -/
theorem inspect_append (checks more : List Check) :
    rules.inspect (checks ++ more) = rules.inspect checks >>= fun _ => rules.inspect more := by
  induction checks with
  | nil => rfl
  | cons check checks ih =>
    rw [List.cons_append, inspect, inspect, ih]
    cases rules.examine check <;> rfl

/-- What is read without a check is read whatever the rules are. -/
theorem Inspected.of_ok (h : reading = .ok a) : rules.Inspected [] reading a := h

/-- Parts that are read one after the other are inspected one after the other.
The checks of the whole are those of the first part and then those of the
second one, which are only made if the first ones pass. -/
theorem Inspected.bind {f : α → Except ParseFailure β} {b : β}
    (h : rules.Inspected checks reading a) (k : rules.Inspected more (f a) b) :
    rules.Inspected (checks ++ more) (reading >>= f) b := by
  unfold Inspected at *
  rw [h, inspect_append]
  cases rules.inspect checks with
  | error e => rfl
  | ok _ => exact k

/-- What succeeds in any case is no part of the inspection. -/
theorem Inspected.after {f : α → Except ParseFailure β} {b : β} (h : reading = .ok a)
    (k : rules.Inspected checks (f a) b) : rules.Inspected checks (reading >>= f) b :=
  (Inspected.of_ok h).bind k

/-- What is made of the outcome without a check leaves the checks as they are. -/
theorem Inspected.before {f : α → Except ParseFailure β} {b : β}
    (h : rules.Inspected checks reading a) (k : f a = .ok b) :
    rules.Inspected checks (reading >>= f) b :=
  List.append_nil checks ▸ h.bind (Inspected.of_ok k)

/-- A single check is inspected by being examined. -/
theorem examine_inspected (check : Check) : rules.Inspected [check] (rules.examine check) () := by
  unfold Inspected inspect
  cases rules.examine check <;> rfl

/-- A delimiter is held against the limit when it is opened. -/
theorem open?_eq_examine (opened : Span) (s : ParseState) :
    s.open? rules opened
      = rules.examine (.load (.opening (s.depth + 1) opened s.cursor.kind)) >>= fun _ =>
        .ok { s with depth := s.depth + 1 } := by
  rw [ParseState.open?, examine, admitLoad, Load.excess?]
  split <;> rfl

/-- A point is held against the limit before the call behind it is read. -/
theorem links_of_point {count : Nat} {soFar : Expr} {s : ParseState}
    (h : s.cursor.atMark '.' = true) :
    rules.links count soFar s
      = rules.examine (.load (.link (count + 1) s.cursor.span)) >>= fun _ =>
        rules.call (some soFar) s.advance >>= fun p => rules.links (count + 1) (.call p.1) p.2 := by
  rw [links_eq, if_pos h, examine, admitLoad, Load.excess?]
  by_cases hlimit : rules.options.maxChain < count + 1
  · rw [if_pos hlimit, if_neg (Nat.not_le.2 hlimit), ParseState.failHere,
      Token.Kind.isMark_iff.1 h]
    rfl
  · rw [if_neg hlimit, if_pos (Nat.not_lt.1 hlimit)]
    rfl

/-- Where no load is too much, the policy decides. Then it does not matter
that words and loads are checked in turn. -/
theorem inspect_eq_review (h : ∀ load ∈ loadsOf checks, rules.admitLoad load = .ok ()) :
    rules.inspect checks = rules.review (wordsOf checks) := by
  induction checks with
  | nil => rfl
  | cons check checks ih =>
    cases check with
    | word role span =>
      rw [inspect, wordsOf, review, ih h]
      rfl
    | load load =>
      obtain ⟨hthis, hrest⟩ := List.forall_mem_cons.1 h
      rw [inspect, wordsOf, ← ih hrest, examine, hthis]
      rfl

end ParseRules

end UiScript
