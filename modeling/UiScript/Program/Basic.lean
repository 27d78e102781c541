/-
Programs as trees. An expression is a literal or a call; a call may have a
receiver, arguments and a block of statements. The root of a program with
several statements is a sequence of them.

# Main statements

* `calls_call` — a call is visited after its receiver, and before its
  arguments and its block.
-/
import UiScript.Token.Basic

namespace UiScript

-- ================================================================== literals

/-- A value that is written out in a program. -/
inductive Literal where
  | string (value : String)
  | number (value : Number)
  | boolean (value : Bool)
  | nil
  /-- A symbol, without its colon. -/
  | symbol (name : String)
deriving DecidableEq, Inhabited

namespace Literal

/-- The literal that a token is. -/
def ofToken? : Token.Kind → Option Literal
  | .string value => some (.string value)
  | .number value => some (.number value)
  | .boolean value => some (.boolean value)
  | .nil => some .nil
  | .symbol name => some (.symbol name)
  | _ => none

/-- Whether two literals are equal, numbers as numbers. -/
def agrees : Literal → Literal → Bool
  | .number m, .number n => m.agrees n
  | a, b => a == b

end Literal

-- ===================================================================== trees

mutual
/-- An expression of a program. -/
inductive Expr where
  | call (call : Call)
  | literal (value : Literal) (span : Span)
  /-- The statements of a program that has several. -/
  | sequence (block : Block)

/-- A call: `receiver.method(args) { block }`. -/
structure Call where
  /-- What the call is chained to, if it is. -/
  receiver : Option Expr
  method : String
  args : List Argument
  block : Option Block
  span : Span

/-- An argument of a call. -/
inductive Argument where
  | positional (value : Expr)
  | named (key : String) (value : Expr) (span : Span)

/-- Statements in order. -/
structure Block where
  statements : List Expr
  span : Span
end

namespace Argument

/-- The value of an argument. -/
def value : Argument → Expr
  | .positional value => value
  | .named _ value _ => value

/-- The key of an argument, if it is named. -/
def key? : Argument → Option String
  | .positional _ => none
  | .named key _ _ => some key

end Argument

namespace Expr

/-- The span of an expression. -/
def span : Expr → Span
  | .call c => c.span
  | .literal _ span => span
  | .sequence block => block.span

/-- The call that an expression is. -/
def call? : Expr → Option Call
  | .call c => some c
  | _ => none

/-- The literal that an expression is. -/
def literal? : Expr → Option Literal
  | .literal value _ => some value
  | _ => none

end Expr

namespace Call

/-- The values of the positional arguments, in order. -/
def positional (c : Call) : List Expr :=
  c.args.filterMap fun
    | .positional value => some value
    | .named .. => none

/-- The keys and values of the named arguments, in order. -/
def named (c : Call) : List (String × Expr) :=
  c.args.filterMap fun
    | .positional _ => none
    | .named key value _ => some (key, value)

/-- The call that this one is chained to. -/
def receiverCall? (c : Call) : Option Call := c.receiver.bind Expr.call?

end Call

-- ===================================================================== walks

mutual
/-- Every call of an expression: receivers before the call they feed,
arguments before blocks. -/
def Expr.calls : Expr → List Call
  | .call ⟨receiver, method, args, block, span⟩ =>
    (match receiver with
      | some r => r.calls
      | none => [])
      ++ ⟨receiver, method, args, block, span⟩ :: argumentCalls args
      ++ (match block with
        | some ⟨statements, _⟩ => statementCalls statements
        | none => [])
  | .literal .. => []
  | .sequence ⟨statements, _⟩ => statementCalls statements

/-- Every call of the arguments. -/
def argumentCalls : List Argument → List Call
  | [] => []
  | .positional value :: args => value.calls ++ argumentCalls args
  | .named _ value _ :: args => value.calls ++ argumentCalls args

/-- Every call of the statements. -/
def statementCalls : List Expr → List Call
  | [] => []
  | statement :: statements => statement.calls ++ statementCalls statements
end

/-- The names that are called, in the order of `calls`. -/
def Expr.methodNames (e : Expr) : List String := e.calls.map Call.method

/-- The names along a chain of calls, the innermost receiver first, and
`after` behind them. -/
def Expr.chainOnto : Expr → List String → List String
  | .call ⟨some receiver, method, _, _, _⟩, after => receiver.chainOnto (method :: after)
  | .call ⟨none, method, _, _, _⟩, after => method :: after
  | .literal .., after => after
  | .sequence _, after => after

/-- The names along a chain of calls, the innermost receiver first. -/
def Expr.chain (e : Expr) : List String := e.chainOnto []

/-- The names along the chain that ends with a call, the innermost receiver
first. -/
def Call.chain (c : Call) : List String := (Expr.call c).chain

/-- A call is visited after its receiver, and before its arguments and its
block. A handler is run in another order, which `Expr.sites` lists. -/
theorem calls_call (c : Call) :
    (Expr.call c).calls = (c.receiver.elim [] Expr.calls) ++ c :: argumentCalls c.args
      ++ (c.block.elim [] fun b => statementCalls b.statements) := by
  obtain ⟨receiver, method, args, block, span⟩ := c
  rcases receiver with _ | r <;> rcases block with _ | ⟨statements, s⟩ <;> simp [Expr.calls]

theorem argumentCalls_eq_flatMap (args : List Argument) :
    argumentCalls args = args.flatMap fun a => a.value.calls := by
  induction args with
  | nil => rfl
  | cons a args ih => cases a <;> simp [argumentCalls, Argument.value, ih]

theorem statementCalls_eq_flatMap (statements : List Expr) :
    statementCalls statements = statements.flatMap Expr.calls := by
  induction statements with
  | nil => rfl
  | cons s statements ih => simp [statementCalls, ih]

-- ================================================================== equality

mutual
/-- Whether two expressions are equal, numbers as numbers. -/
def Expr.agrees : Expr → Expr → Bool
  | .call ⟨receiver, method, args, block, span⟩, .call d =>
    (match receiver, d.receiver with
      | none, none => true
      | some r, some q => r.agrees q
      | _, _ => false)
      && method == d.method && argumentsAgree args d.args
      && (match block, d.block with
        | none, none => true
        | some ⟨statements, s⟩, some b => statementsAgree statements b.statements && s == b.span
        | _, _ => false)
      && span == d.span
  | .literal value span, .literal w s => value.agrees w && span == s
  | .sequence ⟨statements, span⟩, .sequence b =>
    statementsAgree statements b.statements && span == b.span
  | _, _ => false

/-- Whether arguments are equal one by one. -/
def argumentsAgree : List Argument → List Argument → Bool
  | [], [] => true
  | .positional value :: args, .positional w :: as => value.agrees w && argumentsAgree args as
  | .named key value span :: args, .named k w s :: as =>
    key == k && value.agrees w && span == s && argumentsAgree args as
  | _, _ => false

/-- Whether statements are equal one by one. -/
def statementsAgree : List Expr → List Expr → Bool
  | [], [] => true
  | e :: es, f :: fs => e.agrees f && statementsAgree es fs
  | _, _ => false
end

end UiScript
