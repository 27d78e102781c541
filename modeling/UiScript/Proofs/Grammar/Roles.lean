/-
What the words of a program are for. A name that has a colon after it is the
key of an argument, every other name is called, and a literal stands for its
value; all other tokens only hold these together. The words of a program,
each in its role, can therefore be read off its tokens, without parsing
them, and off the expression that it stands for, without its tokens. A
derivation says that the two are the same list.

# Main statements

* `Chain.roles_tokens` and its kin: the words of the tokens are those of the
  derivation.
* `Chain.roles_expr` and its kin: those of the expression are, too.
* `Expr.filterMap_called_roles`, `Expr.filterMap_literal_roles`: the names and
  the literals of an expression are among its words, in order.
-/
import UiScript.Proofs.Grammar.Derivation
import UiScript.Proofs.Program.Walks

namespace UiScript

/-- What a word of a program is for. -/
inductive Role where
  | called (name : String)
  | key (name : String)
  | literal (value : Literal)
deriving DecidableEq

namespace Role

def called? : Role → Option String
  | .called name => some name
  | _ => none

def key? : Role → Option String
  | .key name => some name
  | _ => none

def literal? : Role → Option Literal
  | .literal value => some value
  | _ => none

end Role

open Token (mark front)

-- ==================================================================== tokens

namespace Token

/-- The role of a token, given the kind of the token that follows. -/
def Kind.role? (kind next : Kind) : Option Role :=
  match kind with
  | .identifier name => some (if next = .punctuation ':' then .key name else .called name)
  | kind => (Literal.ofToken? kind).map .literal

/-- The words among some tokens, and where they stand; `next` follows the
tokens. -/
def roles (next : Kind) : List Token → List (Role × Span)
  | [] => []
  | t :: ts => ((t.kind.role? (front next ts)).map (·, t.span)).toList ++ roles next ts

/-- The words of two stretches. The last name of the first one is a key if a
colon starts the second, so what stands at the front of the second matters to
the first. -/
theorem roles_append (next : Kind) (ts us : List Token) :
    roles next (ts ++ us) = roles (front next us) ts ++ roles next us := by
  induction ts with
  | nil => rfl
  | cons t ts ih =>
    rw [List.cons_append, roles, roles, ih, front_append, List.append_assoc]

/-- A word that is called is spelled by one of the tokens. -/
theorem exists_of_called_mem_roles {next : Kind} {ts : List Token} {name : String} {span : Span}
    (h : (.called name, span) ∈ roles next ts) : ∃ t ∈ ts, t.kind = .identifier name := by
  induction ts with
  | nil => cases h
  | cons t ts ih =>
    rw [roles, List.mem_append] at h
    rcases h with h | h
    · obtain ⟨role, hrole, heq⟩ := Option.map_eq_some_iff.1 (Option.mem_toList.1 h)
      obtain rfl : role = .called name := congrArg Prod.fst heq
      refine ⟨t, List.mem_cons_self, ?_⟩
      obtain ⟨kind, _⟩ := t
      cases kind with
      | identifier _ =>
        simp only [Kind.role?] at hrole
        split at hrole <;> cases hrole
        rfl
      | _ => cases hrole
    · obtain ⟨u, hu, hkind⟩ := ih h
      exact ⟨u, List.mem_cons_of_mem _ hu, hkind⟩

/-- A token that is no word in its place is passed over. -/
theorem roles_cons_of_none {next : Kind} {t : Token} {ts : List Token}
    (h : t.kind.role? (front next ts) = none) : roles next (t :: ts) = roles next ts := by
  rw [roles, h]
  rfl

/-- A punctuation mark is no word, in any place. -/
theorem roles_mark (next : Kind) (c : Char) (span : Span) (ts : List Token) :
    roles next (mark c span :: ts) = roles next ts :=
  roles_cons_of_none rfl

theorem roles_separators (next : Kind) (spans : List Span) :
    roles next (spans.map (mark ';')) = [] := by
  induction spans with
  | nil => rfl
  | cons span spans ih => rw [List.map_cons, roles_mark, ih]

end Token

-- =============================================================== expressions

mutual
/-- The words of an expression, in the order of the source. -/
def Expr.roles : Expr → List Role
  | .call ⟨receiver, method, args, block, _⟩ =>
    (match receiver with
      | some r => r.roles
      | none => [])
      ++ .called method :: (argumentRoles args
      ++ match block with
        | some ⟨statements, _⟩ => statementRoles statements
        | none => [])
  | .literal value _ => [.literal value]
  | .sequence ⟨statements, _⟩ => statementRoles statements

/-- The words of the arguments. -/
def argumentRoles : List Argument → List Role
  | [] => []
  | .positional value :: args => value.roles ++ argumentRoles args
  | .named key value _ :: args => .key key :: (value.roles ++ argumentRoles args)

/-- The words of the statements. -/
def statementRoles : List Expr → List Role
  | [] => []
  | statement :: statements => statement.roles ++ statementRoles statements
end

/-- The words of a call, in the order of the source: those of the receiver,
its name, those of the arguments and those of the block. -/
theorem roles_call (c : Call) :
    (Expr.call c).roles = c.receiver.elim [] Expr.roles
      ++ .called c.method :: (argumentRoles c.args
        ++ c.block.elim [] fun b => statementRoles b.statements) := by
  obtain ⟨receiver, method, args, block, span⟩ := c
  rcases receiver with _ | r <;> rcases block with _ | ⟨statements, s⟩ <;> rfl

/-- A program has the words of its statements, whether one stands alone or
several are a block. -/
theorem roles_rootOf (statements : List Expr) :
    (ParseRules.rootOf statements).roles = statementRoles statements := by
  match statements with
  | [] => rfl
  | [only] => simp [ParseRules.rootOf, statementRoles]
  | first :: second :: rest => rfl

section

variable {α : Type} {pick : Role → Option α} {walk : Expr → List α}

/-- One kind of words of arguments: for each argument its key, if keys are of
that kind, and then what is picked of its value. -/
theorem filterMap_argumentRoles {args : List Argument}
    (h : ∀ a ∈ args, a.value.roles.filterMap pick = walk a.value) :
    (argumentRoles args).filterMap pick
      = args.flatMap fun a => (a.key?.bind fun key => pick (.key key)).toList ++ walk a.value := by
  induction args with
  | nil => rfl
  | cons a args ih =>
    obtain ⟨hthis, hrest⟩ := List.forall_mem_cons.1 h
    rw [List.flatMap_cons, ← hthis, ← ih hrest]
    cases a with
    | positional value => exact List.filterMap_append
    | named key value span =>
      have hvalue : (value.roles ++ argumentRoles args).filterMap pick
          = value.roles.filterMap pick ++ (argumentRoles args).filterMap pick :=
        List.filterMap_append
      rw [argumentRoles, List.filterMap_cons, hvalue]
      cases hkey : pick (.key key) <;> simp [Argument.key?, Argument.value, hkey]

/-- One kind of words of statements, statement by statement. -/
theorem filterMap_statementRoles {statements : List Expr}
    (h : ∀ e ∈ statements, e.roles.filterMap pick = walk e) :
    (statementRoles statements).filterMap pick = statements.flatMap walk := by
  induction statements with
  | nil => rfl
  | cons e statements ih =>
    obtain ⟨hthis, hrest⟩ := List.forall_mem_cons.1 h
    rw [statementRoles, List.filterMap_append, hthis, ih hrest, List.flatMap_cons]

/-- A walk over expressions that takes a call after its receiver, and before
its arguments and its block, and a key before its value, picks what it takes
from the words of the expression. -/
theorem Expr.filterMap_roles
    (literal : ∀ value span, walk (.literal value span) = (pick (.literal value)).toList)
    (sequence : ∀ b, walk (.sequence b) = b.statements.flatMap walk)
    (call : ∀ c, walk (.call c) = c.receiver.elim [] walk ++ (pick (.called c.method)).toList
      ++ (c.args.flatMap fun a => (a.key?.bind fun key => pick (.key key)).toList ++ walk a.value)
      ++ c.block.elim [] fun b => b.statements.flatMap walk)
    (e : Expr) : e.roles.filterMap pick = walk e := by
  induction e using Expr.induct with
  | literal value span =>
    rw [literal, Expr.roles, List.filterMap_cons]
    cases pick (.literal value) <;> rfl
  | sequence b hstatements =>
    obtain ⟨statements, span⟩ := b
    rw [sequence]
    exact filterMap_statementRoles hstatements
  | call c hreceiver hargs hblock =>
    have hreceivers : (c.receiver.elim [] Expr.roles).filterMap pick = c.receiver.elim [] walk := by
      cases hr : c.receiver with
      | none => rfl
      | some r => exact hreceiver r hr
    have hblocks : (c.block.elim [] fun b => statementRoles b.statements).filterMap pick
        = c.block.elim [] fun b => b.statements.flatMap walk := by
      cases hb : c.block with
      | none => rfl
      | some b => exact filterMap_statementRoles (hblock b hb)
    rw [call, roles_call, List.filterMap_append, List.filterMap_cons, List.filterMap_append,
      hreceivers, filterMap_argumentRoles hargs, hblocks]
    cases pick (.called c.method) <;> simp

end

/-- The names that are called are words of the expression, in order. -/
theorem Expr.filterMap_called_roles (e : Expr) :
    e.roles.filterMap Role.called? = e.methodNames := by
  refine e.filterMap_roles (fun _ _ => rfl) ?_ ?_
  · intro b
    obtain ⟨statements, span⟩ := b
    rw [Expr.methodNames, Expr.calls, statementCalls_eq_flatMap, List.map_flatMap]
    rfl
  · intro c
    have hnames : Expr.methodNames = fun e => e.calls.map Call.method := rfl
    rw [hnames]
    simp only [calls_call, argumentCalls_eq_flatMap]
    rcases c.receiver with _ | r <;> rcases c.block with _ | b <;>
      simp [statementCalls_eq_flatMap, List.map_flatMap, Role.called?]

/-- The literals are words of the expression, in order. -/
theorem Expr.filterMap_literal_roles (e : Expr) :
    e.roles.filterMap Role.literal? = e.literals := by
  refine e.filterMap_roles (fun _ _ => rfl) ?_ ?_
  · intro b
    obtain ⟨statements, span⟩ := b
    rw [Expr.literals, statementLiterals_eq_flatMap]
  · intro c
    rw [literals_call, argumentLiterals_eq_flatMap]
    rcases c.receiver with _ | r <;> rcases c.block with _ | b <;>
      simp [statementLiterals_eq_flatMap, Role.literal?]

/-- The keys are words of the expression, in order. -/
theorem Expr.filterMap_key_roles (e : Expr) : e.roles.filterMap Role.key? = e.keys := by
  refine e.filterMap_roles (fun _ _ => rfl) ?_ ?_
  · intro b
    obtain ⟨statements, span⟩ := b
    rw [Expr.keys, keysOfStatements_eq_flatMap]
  · intro c
    rw [keys_call, keysOfArguments_eq_flatMap]
    rcases c.receiver with _ | r <;> rcases c.block with _ | b <;>
      simp [keysOfStatements_eq_flatMap, Role.key?]

-- =============================================================== derivations

namespace Derivation

mutual
/-- The words of what is derived, and where they stand. -/
def Chain.roles : Chain → List (Role × Span)
  | .mk first links => first.roles ++ links.roles

def Links.roles : Links → List (Role × Span)
  | .none => []
  | .more _ call rest => call.roles ++ rest.roles

def Primary.roles : Primary → List (Role × Span)
  | .call call => call.roles
  | .literal value span => [(.literal value, span)]
  | .parenthesized _ inner _ => inner.roles

def Call.roles : Call → List (Role × Span)
  | .mk name span args block => (.called name, span) :: (args.roles ++ block.roles)

def Arguments.roles : Arguments → List (Role × Span)
  | .none => []
  | .list _ items _ => items.roles

def ArgumentList.roles : ArgumentList → List (Role × Span)
  | .none => []
  | .last arg => arg.roles
  | .more arg _ rest => arg.roles ++ rest.roles

def Argument.roles : Argument → List (Role × Span)
  | .positional value => value.roles
  | .named key span _ value => (.key key, span) :: value.roles

def Block.roles : Block → List (Role × Span)
  | .none => []
  | .fenced _ _ body _ => body.roles

def Body.roles : Body → List (Role × Span)
  | .done _ => []
  | .more _ statement rest => statement.roles ++ rest.roles
end

/-- The words of a program, and where they stand. -/
def Program.roles (d : Program) : List (Role × Span) := d.first.roles ++ d.rest.roles

-- ------------------------------------------------------- read off the tokens

/-- Links start with a dot, if at all, and so no colon comes behind what
stands before them. -/
theorem Links.front_tokens_ne (d : Links) {next : Token.Kind} (h : next ≠ .punctuation ':') :
    front next d.tokens ≠ .punctuation ':' := by
  cases d with
  | none => exact h
  | more point call rest => simp [Links.tokens, mark]

theorem Block.front_tokens_ne (d : Block) {next : Token.Kind} (h : next ≠ .punctuation ':') :
    front next d.tokens ≠ .punctuation ':' := by
  cases d with
  | none => exact h
  | fenced fence opened body closed => cases fence <;> simp [Block.tokens, Fence.opening]

/-- Arguments start with a parenthesis, if at all, which is no colon. So a
name in front of them is called, and is no key. -/
theorem Arguments.front_tokens_ne (d : Arguments) {next : Token.Kind}
    (h : next ≠ .punctuation ':') :
    front next d.tokens ≠ .punctuation ':' := by
  cases d with
  | none => exact h
  | list opened items closed => simp [Arguments.tokens, mark]

/-- Neither closing mark of a block is a colon, so the last name in a block is
no key. -/
theorem Fence.closing_ne_colon (fence : Fence) : fence.closing ≠ .punctuation ':' := by
  cases fence <;> decide

theorem Fence.role?_opening (fence : Fence) (next : Token.Kind) :
    fence.opening.role? next = none := by
  cases fence <;> rfl

theorem Fence.role?_closing (fence : Fence) (next : Token.Kind) :
    fence.closing.role? next = none := by
  cases fence <;> rfl

mutual
/-- Before anything but a colon, the words of the tokens are those of the
derivation. With a colon behind it, a name at the end would be a key; no
production ends in front of one, except the key itself. -/
theorem Chain.roles_tokens : ∀ (d : Chain) {next : Token.Kind}, next ≠ .punctuation ':' →
    Token.roles next d.tokens = d.roles
  | .mk first links, next, h => by
    rw [Chain.tokens, Chain.roles, Token.roles_append, links.roles_tokens h,
      first.roles_tokens (links.front_tokens_ne h)]

theorem Links.roles_tokens : ∀ (d : Links) {next : Token.Kind}, next ≠ .punctuation ':' →
    Token.roles next d.tokens = d.roles
  | .none, next, h => rfl
  | .more point call rest, next, h => by
    rw [Links.tokens, Links.roles, Token.roles_mark, Token.roles_append, rest.roles_tokens h,
      call.roles_tokens (rest.front_tokens_ne h)]

theorem Primary.roles_tokens : ∀ (d : Primary) {next : Token.Kind}, next ≠ .punctuation ':' →
    Token.roles next d.tokens = d.roles
  | .call call, next, h => call.roles_tokens h
  | .literal value span, next, h => by cases value <;> rfl
  | .parenthesized opened inner closed, next, h => by
    rw [Primary.tokens, Primary.roles, Token.roles_mark, Token.roles_append, Token.roles_mark,
      Token.roles, List.append_nil]
    exact inner.roles_tokens (by simp [mark])

/-- The words of the tokens of a call. Its name is called because no colon
stands behind it. -/
theorem Call.roles_tokens : ∀ (d : Call) {next : Token.Kind}, next ≠ .punctuation ':' →
    Token.roles next d.tokens = d.roles
  | .mk name span args block, next, h => by
    have hblock := block.front_tokens_ne h
    have hname : front next (args.tokens ++ block.tokens) ≠ .punctuation ':' := by
      rw [Token.front_append]
      exact args.front_tokens_ne hblock
    rw [Call.tokens, Call.roles, Token.roles, Token.roles_append, block.roles_tokens h,
      args.roles_tokens hblock]
    simp only [Token.Kind.role?, if_neg hname]
    rfl

theorem Arguments.roles_tokens : ∀ (d : Arguments) {next : Token.Kind}, next ≠ .punctuation ':' →
    Token.roles next d.tokens = d.roles
  | .none, next, h => rfl
  | .list opened items closed, next, h => by
    rw [Arguments.tokens, Arguments.roles, Token.roles_mark, Token.roles_append, Token.roles_mark,
      Token.roles, List.append_nil]
    exact items.roles_tokens (by simp [mark])

/-- The words of the tokens of a list of arguments. Behind each stands a comma
or what is behind the list, and neither is a colon. -/
theorem ArgumentList.roles_tokens : ∀ (d : ArgumentList) {next : Token.Kind},
    next ≠ .punctuation ':' → Token.roles next d.tokens = d.roles
  | .none, next, h => rfl
  | .last arg, next, h => arg.roles_tokens h
  | .more arg comma rest, next, h => by
    rw [ArgumentList.tokens, ArgumentList.roles, Token.roles_append, Token.roles_mark,
      rest.roles_tokens h, arg.roles_tokens (by simp [mark])]

/-- The words of the tokens of an argument. Here is the one name with a colon
behind it. -/
theorem Argument.roles_tokens : ∀ (d : Argument) {next : Token.Kind}, next ≠ .punctuation ':' →
    Token.roles next d.tokens = d.roles
  | .positional value, next, h => value.roles_tokens h
  | .named key span colon value, next, h => by
    rw [Argument.tokens, Argument.roles, Token.roles, Token.roles_mark, value.roles_tokens h]
    rfl

theorem Block.roles_tokens : ∀ (d : Block) {next : Token.Kind}, next ≠ .punctuation ':' →
    Token.roles next d.tokens = d.roles
  | .none, next, h => rfl
  | .fenced fence opened body closed, next, h => by
    rw [Block.tokens, Block.roles, Token.roles_cons_of_none (fence.role?_opening _),
      Token.roles_append, Token.roles_cons_of_none (fence.role?_closing _), Token.roles,
      List.append_nil]
    exact body.roles_tokens fence.closing_ne_colon

theorem Body.roles_tokens : ∀ (d : Body) {next : Token.Kind}, next ≠ .punctuation ':' →
    Token.roles next d.tokens = d.roles
  | .done separators, next, h => Token.roles_separators next separators
  | .more separators statement rest, next, h => by
    rw [Body.tokens, Body.roles, Token.roles_append, Token.roles_separators, Token.roles_append,
      rest.roles_tokens h,
      statement.roles_tokens (rest.front_tokens_ne_mark (by decide) (by decide) h)]
    rfl
end

-- --------------------------------------------------- read off the expression

mutual
/-- The words of the expression are those of the derivation. Parentheses leave
no trace, and hold no words of their own. -/
theorem Chain.roles_expr : ∀ d : Chain, d.expr.roles = d.roles.map Prod.fst
  | .mk first links => by
    rw [Chain.expr, Chain.roles, links.roles_onto, first.roles_expr, List.map_append]

/-- Links only add words behind those of what they are put on. -/
theorem Links.roles_onto : ∀ (d : Links) (e : Expr),
    (d.onto e).roles = e.roles ++ d.roles.map Prod.fst
  | .none, e => (List.append_nil _).symm
  | .more point call rest, e => by
    rw [Links.onto, Links.roles, rest.roles_onto, call.roles_on, List.map_append,
      List.append_assoc]
    rfl

theorem Primary.roles_expr : ∀ d : Primary, d.expr.roles = d.roles.map Prod.fst
  | .call call => call.roles_on none
  | .literal .. => rfl
  | .parenthesized _ inner _ => inner.roles_expr

/-- A call on a receiver has the words of the receiver first. -/
theorem Call.roles_on : ∀ (d : Call) (receiver : Option Expr),
    (Expr.call (d.on receiver)).roles = receiver.elim [] Expr.roles ++ d.roles.map Prod.fst
  | .mk name span args block, receiver => by
    rw [roles_call, Call.roles, List.map_cons, List.map_append, ← args.roles_values,
      ← block.roles_value]
    rfl

theorem Arguments.roles_values : ∀ d : Arguments,
    argumentRoles d.values = d.roles.map Prod.fst
  | .none => rfl
  | .list _ items _ => items.roles_values

theorem ArgumentList.roles_values : ∀ d : ArgumentList,
    argumentRoles d.values = d.roles.map Prod.fst
  | .none => rfl
  | .last arg => by
    rw [ArgumentList.values, arg.roles_value, ArgumentList.roles]
    exact List.append_nil _
  | .more arg comma rest => by
    rw [ArgumentList.values, arg.roles_value, ArgumentList.roles, List.map_append,
      rest.roles_values]

/-- One more argument in front adds its own words in front. -/
theorem Argument.roles_value : ∀ (d : Argument) (args : List UiScript.Argument),
    argumentRoles (d.value :: args) = d.roles.map Prod.fst ++ argumentRoles args
  | .positional value, args => by
    rw [Argument.value, argumentRoles, value.roles_expr, Argument.roles]
  | .named key span colon value, args => by
    rw [Argument.value, argumentRoles, value.roles_expr, Argument.roles]
    rfl

theorem Block.roles_value : ∀ d : Block,
    (d.value.elim [] fun b => statementRoles b.statements) = d.roles.map Prod.fst
  | .none => rfl
  | .fenced _ _ body _ => body.roles_exprs

theorem Body.roles_exprs : ∀ d : Body, statementRoles d.exprs = d.roles.map Prod.fst
  | .done separators => rfl
  | .more separators statement rest => by
    rw [Body.exprs, statementRoles, statement.roles_expr, rest.roles_exprs, Body.roles,
      List.map_append]
end

/-- The words of the expression that a program stands for are those of its
derivation. -/
theorem Program.roles_expr (d : Program) : d.expr.roles = d.roles.map Prod.fst := by
  rw [Program.expr, roles_rootOf]
  exact (Body.more d.separators d.first d.rest).roles_exprs

/-- The words of the tokens of a program are those of its derivation. With
`roles_expr`, the words can be read off either. -/
theorem Program.roles_tokens (d : Program) : Token.roles .endOfInput d.tokens = d.roles :=
  (Body.more d.separators d.first d.rest).roles_tokens (by decide)

end Derivation

end UiScript
