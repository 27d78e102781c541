/-
The same things further on. Whatever holds spans (tokens, errors, programs)
can be moved by a number of bytes: each of its spans is, and nothing else
changes.

# Main statements

* `Expr.shift_call`, `Expr.shift_sequence`: what is moved with a call, and
  with a sequence.
* `Expr.span_shift`: the span of what is moved is the moved span.
* `Expr.shift_zero`: an expression that is moved by nothing.
* `Argument.value_shift`, `Argument.key?_shift`: arguments keep their keys.
-/
import UiScript.Interpreter.Failure
import UiScript.Program.Parse
import UiScript.Proofs.Program.Walks
import UiScript.Token.OfSource

namespace UiScript

-- ===================================================================== spans

namespace Span

@[simp] theorem shift_zero (s : Span) : s.shift 0 = s := by
  simp [shift]

theorem shift_shift (d e : Nat) (s : Span) : (s.shift e).shift d = s.shift (d + e) := by
  simp [shift, Nat.add_assoc]

/-- Moved spans span the moved span. -/
theorem merge_shift (d : Nat) (s t : Span) :
    (s.shift d).merge (t.shift d) = (s.merge t).shift d := by
  simp [merge, shift, Nat.add_min_add_left, Nat.add_max_add_left]

end Span

namespace Token

@[simp] theorem shift_zero (t : Token) : t.shift 0 = t := by
  simp [shift]

theorem shift_shift (d e : Nat) (t : Token) : (t.shift e).shift d = t.shift (d + e) := by
  simp [shift, Span.shift_shift]

end Token

-- ==================================================================== errors

theorem LexicalError.shift_shift (d e : Nat) (x : LexicalError) :
    (x.shift e).shift d = x.shift (d + e) := by
  simp [LexicalError.shift, Span.shift_shift]

/-- The same cause, further on. -/
def SyntaxError.Cause.shift (d : Nat) : SyntaxError.Cause → SyntaxError.Cause
  | .unclosed delimiter opened found => .unclosed delimiter (opened.shift d) found
  | cause => cause

/-- The same failure, further on. -/
def ParseFailure.shift (d : Nat) : ParseFailure → ParseFailure
  | .grammar e => .grammar ⟨e.span.shift d, e.cause.shift d⟩
  | .refused r => .refused { r with span := r.span.shift d }

/-- A failure that is moved by nothing stays. -/
@[simp] theorem ParseFailure.shift_zero (failure : ParseFailure) : failure.shift 0 = failure := by
  rcases failure with ⟨span, cause⟩ | r
  · cases cause <;> simp [shift, SyntaxError.Cause.shift]
  · simp [shift]

/-- The same failure, further on. -/
def ExecutionError.shift (d : Nat) (e : ExecutionError) : ExecutionError :=
  { e with span := e.span.map (Span.shift d) }

/-- The same failure, further on: every span is moved, and nothing else
changes. -/
def Failure.shift (d : Nat) : Failure → Failure
  | .lexical e => .lexical (e.shift d)
  | .parsing failure => .parsing (failure.shift d)
  | .execution e => .execution (e.shift d)

-- ================================================================== programs

mutual
/-- The same expression, further on. -/
def Expr.shift (d : Nat) : Expr → Expr
  | .call ⟨receiver, method, args, block, span⟩ =>
    .call ⟨match receiver with
        | some r => some (r.shift d)
        | none => none,
      method, shiftArguments d args,
      match block with
        | some ⟨statements, s⟩ => some ⟨shiftStatements d statements, s.shift d⟩
        | none => none,
      span.shift d⟩
  | .literal value span => .literal value (span.shift d)
  | .sequence ⟨statements, span⟩ => .sequence ⟨shiftStatements d statements, span.shift d⟩

def shiftArguments (d : Nat) : List Argument → List Argument
  | [] => []
  | .positional value :: args => .positional (value.shift d) :: shiftArguments d args
  | .named key value span :: args =>
    .named key (value.shift d) (span.shift d) :: shiftArguments d args

def shiftStatements (d : Nat) : List Expr → List Expr
  | [] => []
  | statement :: statements => statement.shift d :: shiftStatements d statements
end

/-- The same argument, further on. -/
def Argument.shift (d : Nat) : Argument → Argument
  | .positional value => .positional (value.shift d)
  | .named key value span => .named key (value.shift d) (span.shift d)

/-- The same block, further on. -/
def Block.shift (d : Nat) (b : Block) : Block := ⟨b.statements.map (Expr.shift d), b.span.shift d⟩

/-- The same call, further on. -/
def Call.shift (d : Nat) (c : Call) : Call :=
  ⟨c.receiver.map (Expr.shift d), c.method, c.args.map (Argument.shift d),
    c.block.map (Block.shift d), c.span.shift d⟩

/-- Moving arguments moves each of them. -/
theorem shiftArguments_eq_map (d : Nat) (args : List Argument) :
    shiftArguments d args = args.map (Argument.shift d) := by
  induction args with
  | nil => rfl
  | cons a args ih => cases a <;> simp [shiftArguments, Argument.shift, ih]

theorem shiftStatements_eq_map (d : Nat) (statements : List Expr) :
    shiftStatements d statements = statements.map (Expr.shift d) := by
  induction statements with
  | nil => rfl
  | cons s statements ih => simp [shiftStatements, ih]

/-- A call is moved with all of its parts. -/
theorem Expr.shift_call (d : Nat) (c : Call) : (Expr.call c).shift d = .call (c.shift d) := by
  obtain ⟨receiver, method, args, block, span⟩ := c
  rcases receiver with _ | r <;> rcases block with _ | ⟨statements, s⟩ <;>
    simp [Expr.shift, Call.shift, Block.shift, shiftArguments_eq_map, shiftStatements_eq_map]

/-- A program of several statements is moved as the block that it is. -/
theorem Expr.shift_sequence (d : Nat) (b : Block) :
    (Expr.sequence b).shift d = .sequence (b.shift d) := by
  obtain ⟨statements, span⟩ := b
  simp [Expr.shift, Block.shift, shiftStatements_eq_map]

/-- The span of what is moved is the moved span. The span of an expression is
the one that its constructor holds. -/
theorem Expr.span_shift (d : Nat) (e : Expr) : (e.shift d).span = e.span.shift d := by
  cases e with
  | call c =>
    rw [Expr.shift_call]
    rfl
  | literal value span => rfl
  | sequence b =>
    rw [Expr.shift_sequence]
    rfl

/-- Expressions that stay where they are do so in a row. -/
theorem map_shift_zero {es : List Expr} (h : ∀ e ∈ es, e.shift 0 = e) :
    es.map (Expr.shift 0) = es :=
  (List.map_congr_left h).trans es.map_id

/-- An expression that is moved by nothing stays where it is. -/
@[simp] theorem Expr.shift_zero (e : Expr) : e.shift 0 = e := by
  induction e using Expr.induct with
  | literal value span => simp [Expr.shift]
  | sequence b ih =>
    obtain ⟨statements, span⟩ := b
    rw [Expr.shift_sequence, Block.shift, map_shift_zero ih, Span.shift_zero]
  | call c hreceiver hargs hblock =>
    obtain ⟨receiver, method, args, block, span⟩ := c
    have hreceiver' : receiver.map (Expr.shift 0) = receiver := by
      cases receiver with
      | none => rfl
      | some r => exact congrArg some (hreceiver r rfl)
    have hargs' : args.map (Argument.shift 0) = args := by
      refine (List.map_congr_left fun a ha => ?_).trans args.map_id
      have hvalue := hargs a ha
      cases a with
      | positional value => exact congrArg Argument.positional hvalue
      | named key value s =>
        show Argument.named key (value.shift 0) (s.shift 0) = Argument.named key value s
        rw [show value.shift 0 = value from hvalue, Span.shift_zero]
    have hblock' : block.map (Block.shift 0) = block := by
      cases block with
      | none => rfl
      | some b =>
        obtain ⟨statements, s⟩ := b
        rw [Option.map_some, Block.shift, map_shift_zero (hblock _ rfl), Span.shift_zero]
    rw [Expr.shift_call, Call.shift, hreceiver', hargs', hblock', Span.shift_zero]

/-- The value of a moved argument is the moved value. -/
theorem Argument.value_shift (d : Nat) (a : Argument) : (a.shift d).value = a.value.shift d := by
  cases a <;> rfl

/-- An argument keeps its key, or has none as before. -/
theorem Argument.key?_shift (d : Nat) (a : Argument) : (a.shift d).key? = a.key? := by
  cases a <;> rfl

/-- So the keys that an argument may not have again are the same. -/
theorem argumentKeys_map_shift (d : Nat) (args : List Argument) :
    ParseRules.argumentKeys (args.map (Argument.shift d)) = ParseRules.argumentKeys args := by
  have hkey : Argument.key? ∘ Argument.shift d = Argument.key? := funext (Argument.key?_shift d)
  rw [ParseRules.argumentKeys, List.filterMap_map, hkey]
  rfl

end UiScript
