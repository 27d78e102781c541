/-
The grammar of programs, as trees: a derivation says how a list of tokens is
put together by the productions

    program    := ';'* statement (';'* statement)* ';'*
    statement  := chain
    chain      := primary ('.' call)*
    primary    := call | literal | '(' chain ')'
    call       := NAME ('(' list ')')? block?
    list       := (argument (',' argument)* ','?)?
    argument   := NAME ':' chain | chain
    block      := 'do' body 'end' | '{' body '}'
    body       := (';'* statement)* ';'*

and by nothing else: there is a constructor for each alternative, which
holds the spans of the tokens that it adds. A list of tokens may have
several derivations; the one that is meant is greedy, which is a condition
on what comes next (`Greedy`).

# Main definitions

* `tokens`: what is derived.
* `expr` and its kin: the expression that a derivation stands for.
* `depth`: how many delimiters are open at once, `longest`: how many calls
  are chained to one primary.
* `Greedy`: whether everything takes what it can, given the kind of the
  token that follows.
-/
import UiScript.Program.Parse
import UiScript.Proofs.Reading.Cursor

namespace UiScript

/-- The kind of the token that a literal is written as. -/
def Literal.kind : Literal → Token.Kind
  | .string value => .string value
  | .number value => .number value
  | .boolean value => .boolean value
  | .nil => .nil
  | .symbol name => .symbol name

/-- A token is read as a literal if it is of the kind that the literal is
written as. -/
theorem Literal.ofToken?_eq_some_iff {kind : Token.Kind} {value : Literal} :
    Literal.ofToken? kind = some value ↔ kind = value.kind := by
  cases kind <;> cases value <;> simp [Literal.ofToken?, Literal.kind]

namespace Derivation

-- ============================================================== derivations

/-- What stands around a block. -/
inductive Fence where
  | keywords
  | braces
deriving DecidableEq

namespace Fence

/-- The token that opens a block. -/
def opening : Fence → Token.Kind
  | .keywords => .keyword .opensBlock
  | .braces => .punctuation '\x7b'

/-- The token that closes a block. -/
def closing : Fence → Token.Kind
  | .keywords => .keyword .closesBlock
  | .braces => .punctuation '\x7d'

/-- Neither of the two ends the tokens. -/
theorem isEnd_opening (fence : Fence) : fence.opening.isEnd = false := by
  cases fence <;> rfl

theorem isEnd_closing (fence : Fence) : fence.closing.isEnd = false := by
  cases fence <;> rfl

end Fence

mutual
/-- `primary ('.' call)*` -/
inductive Chain where
  | mk (first : Primary) (links : Links)

/-- `('.' call)*` -/
inductive Links where
  | none
  | more (point : Span) (call : Call) (rest : Links)

/-- `call | literal | '(' chain ')'` -/
inductive Primary where
  | call (call : Call)
  | literal (value : Literal) (span : Span)
  | parenthesized (opened : Span) (inner : Chain) (closed : Span)

/-- `NAME ('(' list ')')? block?` -/
inductive Call where
  | mk (name : String) (span : Span) (arguments : Arguments) (block : Block)

/-- `('(' list ')')?` -/
inductive Arguments where
  | none
  | list (opened : Span) (items : ArgumentList) (closed : Span)

/-- `(argument (',' argument)* ','?)?`, that is nothing, or an argument, and
then nothing, or a comma and a list again. -/
inductive ArgumentList where
  | none
  | last (argument : Argument)
  | more (argument : Argument) (comma : Span) (rest : ArgumentList)

/-- `NAME ':' chain | chain` -/
inductive Argument where
  | positional (value : Chain)
  | named (key : String) (span colon : Span) (value : Chain)

/-- `('do' body 'end' | '{' body '}')?` -/
inductive Block where
  | none
  | fenced (fence : Fence) (opened : Span) (body : Body) (closed : Span)

/-- `(';'* statement)* ';'*` -/
inductive Body where
  | done (separators : List Span)
  | more (separators : List Span) (statement : Chain) (rest : Body)
end

/-- `';'* statement (';'* statement)* ';'*` -/
structure Program where
  separators : List Span
  first : Chain
  rest : Body

-- =================================================================== tokens

open Token (mark front)

mutual
/-- What is derived. -/
def Chain.tokens : Chain → List Token
  | .mk first links => first.tokens ++ links.tokens

def Links.tokens : Links → List Token
  | .none => []
  | .more point call rest => mark '.' point :: (call.tokens ++ rest.tokens)

def Primary.tokens : Primary → List Token
  | .call call => call.tokens
  | .literal value span => [⟨value.kind, span⟩]
  | .parenthesized opened inner closed => mark '(' opened :: (inner.tokens ++ [mark ')' closed])

def Call.tokens : Call → List Token
  | .mk name span args block => ⟨.identifier name, span⟩ :: (args.tokens ++ block.tokens)

def Arguments.tokens : Arguments → List Token
  | .none => []
  | .list opened items closed => mark '(' opened :: (items.tokens ++ [mark ')' closed])

def ArgumentList.tokens : ArgumentList → List Token
  | .none => []
  | .last arg => arg.tokens
  | .more arg comma rest => arg.tokens ++ mark ',' comma :: rest.tokens

def Argument.tokens : Argument → List Token
  | .positional value => value.tokens
  | .named key span colon value => ⟨.identifier key, span⟩ :: mark ':' colon :: value.tokens

def Block.tokens : Block → List Token
  | .none => []
  | .fenced fence opened body closed =>
    ⟨fence.opening, opened⟩ :: (body.tokens ++ [⟨fence.closing, closed⟩])

def Body.tokens : Body → List Token
  | .done separators => separators.map (mark ';')
  | .more separators statement rest =>
    separators.map (mark ';') ++ (statement.tokens ++ rest.tokens)
end

/-- What a program is made of, up to the end of the input. -/
def Program.tokens (d : Program) : List Token :=
  d.separators.map (mark ';') ++ (d.first.tokens ++ d.rest.tokens)

-- =================================================================== depth

mutual
/-- How many delimiters are open at once, at most. -/
def Chain.depth : Chain → Nat
  | .mk first links => max first.depth links.depth

def Links.depth : Links → Nat
  | .none => 0
  | .more _ call rest => max call.depth rest.depth

def Primary.depth : Primary → Nat
  | .call call => call.depth
  | .literal .. => 0
  | .parenthesized _ inner _ => inner.depth + 1

def Call.depth : Call → Nat
  | .mk _ _ args block => max args.depth block.depth

def Arguments.depth : Arguments → Nat
  | .none => 0
  | .list _ items _ => items.depth + 1

def ArgumentList.depth : ArgumentList → Nat
  | .none => 0
  | .last arg => arg.depth
  | .more arg _ rest => max arg.depth rest.depth

def Argument.depth : Argument → Nat
  | .positional value => value.depth
  | .named _ _ _ value => value.depth

def Block.depth : Block → Nat
  | .none => 0
  | .fenced _ _ body _ => body.depth + 1

def Body.depth : Body → Nat
  | .done _ => 0
  | .more _ statement rest => max statement.depth rest.depth
end

/-- How many delimiters are open at once, at most. -/
def Program.depth (d : Program) : Nat := max d.first.depth d.rest.depth

-- =================================================================== chains

/-- How many calls are chained. -/
def Links.count : Links → Nat
  | .none => 0
  | .more _ _ rest => rest.count + 1

mutual
/-- How many calls are chained to one primary, at most. -/
def Chain.longest : Chain → Nat
  | .mk first links => max first.longest (max links.count links.longest)

def Links.longest : Links → Nat
  | .none => 0
  | .more _ call rest => max call.longest rest.longest

def Primary.longest : Primary → Nat
  | .call call => call.longest
  | .literal .. => 0
  | .parenthesized _ inner _ => inner.longest

def Call.longest : Call → Nat
  | .mk _ _ args block => max args.longest block.longest

def Arguments.longest : Arguments → Nat
  | .none => 0
  | .list _ items _ => items.longest

def ArgumentList.longest : ArgumentList → Nat
  | .none => 0
  | .last arg => arg.longest
  | .more arg _ rest => max arg.longest rest.longest

def Argument.longest : Argument → Nat
  | .positional value => value.longest
  | .named _ _ _ value => value.longest

def Block.longest : Block → Nat
  | .none => 0
  | .fenced _ _ body _ => body.longest

def Body.longest : Body → Nat
  | .done _ => 0
  | .more _ statement rest => max statement.longest rest.longest
end

/-- How many calls are chained to one primary, at most. -/
def Program.longest (d : Program) : Nat := max d.first.longest d.rest.longest

-- =================================================================== greed

/-- Whether a name with a colon after it comes first, so that it is a key in
an argument list. -/
def StartsWithKey (next : Token.Kind) : List Token → Prop
  | [] => False
  | t :: ts => t.kind.isName = true ∧ front next ts = .punctuation ':'

instance (next : Token.Kind) (ts : List Token) : Decidable (StartsWithKey next ts) :=
  match ts with
  | [] => inferInstanceAs (Decidable False)
  | t :: ts => inferInstanceAs (Decidable (t.kind.isName = true ∧ front next ts = .punctuation ':'))

mutual
/-- Whether everything takes what it can: a call takes an opening parenthesis
after its name as the start of its arguments, and what opens a block after
these as the start of its block, and a name with a colon after it is a key.
The kind of the token that follows is `next`. -/
def Chain.Greedy : Chain → Token.Kind → Prop
  | .mk first links, next => first.Greedy (front next links.tokens) ∧ links.Greedy next

def Links.Greedy : Links → Token.Kind → Prop
  | .none, _ => True
  | .more _ call rest, next => call.Greedy (front next rest.tokens) ∧ rest.Greedy next

def Primary.Greedy : Primary → Token.Kind → Prop
  | .call call, next => call.Greedy next
  | .literal .., _ => True
  | .parenthesized _ inner _, _ => inner.Greedy (.punctuation ')')

def Call.Greedy : Call → Token.Kind → Prop
  | .mk _ _ args block, next => args.Greedy (front next block.tokens) ∧ block.Greedy next

def Arguments.Greedy : Arguments → Token.Kind → Prop
  | .none, next => next ≠ .punctuation '('
  | .list _ items _, _ => items.Greedy (.punctuation ')')

def ArgumentList.Greedy : ArgumentList → Token.Kind → Prop
  | .none, _ => True
  | .last arg, next => arg.Greedy next
  | .more arg _ rest, next => arg.Greedy (.punctuation ',') ∧ rest.Greedy next

def Argument.Greedy : Argument → Token.Kind → Prop
  | .positional value, next => ¬ StartsWithKey next value.tokens ∧ value.Greedy next
  | .named _ _ _ value, next => value.Greedy next

def Block.Greedy : Block → Token.Kind → Prop
  | .none, next => ∀ fence : Fence, next ≠ fence.opening
  | .fenced fence _ body _, _ => body.Greedy fence.closing

def Body.Greedy : Body → Token.Kind → Prop
  | .done _, _ => True
  | .more _ statement rest, next => statement.Greedy (front next rest.tokens) ∧ rest.Greedy next
end

/-- Whether everything takes what it can, up to the end of the input. -/
def Program.Greedy (d : Program) : Prop :=
  d.first.Greedy (front .endOfInput d.rest.tokens) ∧ d.rest.Greedy .endOfInput

instance (next : Token.Kind) : Decidable (∀ fence : Fence, next ≠ fence.opening) :=
  decidable_of_iff (next ≠ Fence.keywords.opening ∧ next ≠ Fence.braces.opening)
    ⟨fun h fence => match fence with
      | .keywords => h.1
      | .braces => h.2, fun h => ⟨h _, h _⟩⟩

mutual
instance Chain.decidableGreedy (d : Chain) (next : Token.Kind) : Decidable (d.Greedy next) :=
  match d with
  | .mk first links =>
    @instDecidableAnd _ _ (first.decidableGreedy (front next links.tokens))
      (links.decidableGreedy next)

instance Links.decidableGreedy (d : Links) (next : Token.Kind) : Decidable (d.Greedy next) :=
  match d with
  | .none => isTrue trivial
  | .more _ call rest =>
    @instDecidableAnd _ _ (call.decidableGreedy (front next rest.tokens))
      (rest.decidableGreedy next)

instance Primary.decidableGreedy (d : Primary) (next : Token.Kind) : Decidable (d.Greedy next) :=
  match d with
  | .call call => call.decidableGreedy next
  | .literal .. => isTrue trivial
  | .parenthesized _ inner _ => inner.decidableGreedy (.punctuation ')')

instance Call.decidableGreedy (d : Call) (next : Token.Kind) : Decidable (d.Greedy next) :=
  match d with
  | .mk _ _ args block =>
    @instDecidableAnd _ _ (args.decidableGreedy (front next block.tokens))
      (block.decidableGreedy next)

instance Arguments.decidableGreedy (d : Arguments) (next : Token.Kind) :
    Decidable (d.Greedy next) :=
  match d with
  | .none => inferInstanceAs (Decidable (next ≠ .punctuation '('))
  | .list _ items _ => items.decidableGreedy (.punctuation ')')

instance ArgumentList.decidableGreedy (d : ArgumentList) (next : Token.Kind) :
    Decidable (d.Greedy next) :=
  match d with
  | .none => isTrue trivial
  | .last arg => arg.decidableGreedy next
  | .more arg _ rest =>
    @instDecidableAnd _ _ (arg.decidableGreedy (.punctuation ',')) (rest.decidableGreedy next)

instance Argument.decidableGreedy (d : Argument) (next : Token.Kind) : Decidable (d.Greedy next) :=
  match d with
  | .positional value =>
    @instDecidableAnd _ _ (inferInstanceAs (Decidable (¬ StartsWithKey next value.tokens)))
      (value.decidableGreedy next)
  | .named _ _ _ value => value.decidableGreedy next

instance Block.decidableGreedy (d : Block) (next : Token.Kind) : Decidable (d.Greedy next) :=
  match d with
  | .none => inferInstanceAs (Decidable (∀ fence : Fence, next ≠ fence.opening))
  | .fenced fence _ body _ => body.decidableGreedy fence.closing

instance Body.decidableGreedy (d : Body) (next : Token.Kind) : Decidable (d.Greedy next) :=
  match d with
  | .done _ => isTrue trivial
  | .more _ statement rest =>
    @instDecidableAnd _ _ (statement.decidableGreedy (front next rest.tokens))
      (rest.decidableGreedy next)
end

instance (d : Program) : Decidable d.Greedy :=
  inferInstanceAs (Decidable
    (d.first.Greedy (front .endOfInput d.rest.tokens) ∧ d.rest.Greedy .endOfInput))

-- ============================================================== expressions

/-- The span of the last token of a list. -/
def lastSpan (ts : List Token) : Span := (ts.getLastD Token.missing).span

mutual
/-- The expression that a derivation stands for. -/
def Chain.expr : Chain → Expr
  | .mk first links => links.onto first.expr

/-- The calls of the links on what they are chained to. -/
def Links.onto : Links → Expr → Expr
  | .none, soFar => soFar
  | .more _ call rest, soFar => rest.onto (.call (call.on (some soFar)))

/-- Parentheses leave no trace. -/
def Primary.expr : Primary → Expr
  | .call call => .call (call.on none)
  | .literal value span => .literal value span
  | .parenthesized _ inner _ => inner.expr

/-- A call reaches from the start of its receiver, or of its name, to its last
token. -/
def Call.on : Call → Option Expr → UiScript.Call
  | .mk name span args block, receiver =>
    ⟨receiver, name, args.values, block.value,
      ⟨receiver.elim span.start (·.span.start),
        (lastSpan (⟨.identifier name, span⟩ :: (args.tokens ++ block.tokens))).stop⟩⟩

def Arguments.values : Arguments → List UiScript.Argument
  | .none => []
  | .list _ items _ => items.values

def ArgumentList.values : ArgumentList → List UiScript.Argument
  | .none => []
  | .last arg => [arg.value]
  | .more arg _ rest => arg.value :: rest.values

/-- A named argument reaches from its key to the end of its value. -/
def Argument.value : Argument → UiScript.Argument
  | .positional value => .positional value.expr
  | .named key span _ value => .named key value.expr (span.merge value.expr.span)

/-- A block reaches from what opens it to what closes it. -/
def Block.value : Block → Option UiScript.Block
  | .none => .none
  | .fenced _ opened body closed => some ⟨body.exprs, opened.merge closed⟩

def Body.exprs : Body → List Expr
  | .done _ => []
  | .more _ statement rest => statement.expr :: rest.exprs
end

/-- A statement on its own is the program; several are a sequence. -/
def Program.expr (d : Program) : Expr := ParseRules.rootOf (d.first.expr :: d.rest.exprs)

-- ============================================================== first tokens

/-- What an expression can start with: a name, a literal, or an opening
parenthesis. -/
def StartsExpression (kind : Token.Kind) : Prop :=
  (∃ name, kind = .identifier name) ∨ (∃ value : Literal, kind = value.kind)
    ∨ kind = .punctuation '('

/-- An expression does not start with the end of the input. -/
theorem StartsExpression.isEnd_eq_false {kind : Token.Kind} (h : StartsExpression kind) :
    kind.isEnd = false := by
  rcases h with ⟨name, rfl⟩ | ⟨value, rfl⟩ | rfl
  · rfl
  · cases value <;> rfl
  · rfl

/-- The only mark that an expression starts with is the opening parenthesis. -/
theorem StartsExpression.eq_of_mark {c : Char} (h : StartsExpression (.punctuation c)) :
    c = '(' := by
  rcases h with ⟨name, hname⟩ | ⟨value, hvalue⟩ | hmark
  · cases hname
  · cases value <;> cases hvalue
  · exact Token.Kind.punctuation.inj hmark

/-- An expression starts with nothing that closes a block. -/
theorem StartsExpression.ne_closing {kind : Token.Kind} (h : StartsExpression kind)
    (fence : Fence) : kind ≠ fence.closing := by
  rcases h with ⟨name, rfl⟩ | ⟨value, rfl⟩ | rfl
  · cases fence <;> simp [Fence.closing]
  · cases fence <;> cases value <;> simp [Fence.closing, Literal.kind]
  · cases fence <;> simp [Fence.closing]

/-- A call starts with its name. -/
theorem Call.front_tokens (d : Call) (next : Token.Kind) :
    StartsExpression (front next d.tokens) := by
  obtain ⟨name, span, args, block⟩ := d
  exact Or.inl ⟨name, rfl⟩

/-- A chain starts with its first call, with a literal or with a parenthesis. -/
theorem Chain.front_tokens (d : Chain) (next : Token.Kind) :
    StartsExpression (front next d.tokens) := by
  obtain ⟨first, links⟩ := d
  show StartsExpression (front next (first.tokens ++ links.tokens))
  rw [Token.front_append]
  cases first with
  | call call => exact call.front_tokens _
  | literal value span => exact Or.inr (Or.inl ⟨value, rfl⟩)
  | parenthesized opened inner closed => exact Or.inr (Or.inr rfl)

/-- An argument starts as an expression does, for its key is a name. -/
theorem Argument.front_tokens (d : Argument) (next : Token.Kind) :
    StartsExpression (front next d.tokens) := by
  cases d with
  | positional value => exact value.front_tokens next
  | named key span colon value => exact Or.inl ⟨key, rfl⟩

/-- Between statements no mark stands but a separator or what starts an
expression. -/
theorem Body.front_tokens_ne_mark (d : Body) {next : Token.Kind} {c : Char} (hseparator : c ≠ ';')
    (hopening : c ≠ '(') (h : next ≠ .punctuation c) : front next d.tokens ≠ .punctuation c := by
  have hseparators : ∀ (spans : List Span) (kind : Token.Kind), kind ≠ .punctuation c →
      front kind (spans.map (mark ';')) ≠ .punctuation c := by
    intro spans kind hkind
    cases spans with
    | nil => exact hkind
    | cons span spans => exact fun hfront => hseparator (Token.Kind.punctuation.inj hfront).symm
  cases d with
  | done separators => exact hseparators separators next h
  | more separators statement rest =>
    show front next (separators.map (mark ';') ++ (statement.tokens ++ rest.tokens)) ≠ _
    rw [Token.front_append]
    refine hseparators separators _ fun hkind => ?_
    rw [Token.front_append] at hkind
    have hstart := statement.front_tokens (front next rest.tokens)
    rw [hkind] at hstart
    exact hopening hstart.eq_of_mark

/-- Between statements no call is chained. -/
theorem Body.front_tokens_ne (d : Body) {next : Token.Kind} (h : next ≠ .punctuation '.') :
    front next d.tokens ≠ .punctuation '.' :=
  d.front_tokens_ne_mark (by decide) (by decide) h

/-- A chain has a token, whatever it is made of. -/
theorem Chain.tokens_ne_nil (d : Chain) : d.tokens ≠ [] := by
  intro h
  have hstart := d.front_tokens .endOfInput
  rw [h] at hstart
  cases hstart.isEnd_eq_false

end Derivation

end UiScript
