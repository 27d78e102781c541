/-
What is evaluated on the way. To evaluate an expression from a state is to
evaluate some of its parts, each from the state that what stands before it has
left behind (`Visits`). What is visited depends on the handlers: where one
fails, what stands behind it is not visited.

A handler that is run is given what the parts of a visited call came to, from
the state of that visit (`Given`): the receiver, then the arguments from left
to right, then the block.

# Main statements

* `Visits.mem_nodes`: what is visited is a node of the expression.
* `evaluate_visits`: a handler that is run is given what the parts of a call
  came to that is visited.
* `evaluate_tracks`: an expression runs only what serves one of its calls.
* `Given.positional`, `Given.named`: the arguments that a handler is given,
  against those of the call.
-/
import UiScript.Proofs.Execution.Watched
import UiScript.Proofs.Execution.Yields
import UiScript.Proofs.Program.Nodes

namespace UiScript.Execution

variable {σ : Type}

-- ====================================================================== visits

/-- An expression that is evaluated, inside of some blocks and from a state. -/
structure Visit (σ : Type) where
  scope : Scope
  state : σ
  expr : Expr

/-- What is evaluated on the way, from one visit to another one. -/
inductive Visits (table : Table σ) : Visit σ → Visit σ → Prop where
  | here (v : Visit σ) : Visits table v v
  | receiver {scope : Scope} {s : σ} {c : Call} {r : Expr} {v : Visit σ}
    (hreceiver : c.receiver = some r) (h : Visits table ⟨scope, s, r⟩ v) :
    Visits table ⟨scope, s, .call c⟩ v
  | argument {scope : Scope} {s t u : σ} {c : Call} {receiver : Option Value}
    {before after : List Argument} {a : Argument} {values : List EvaluatedArgument} {v : Visit σ}
    (hreceiver : (evaluateReceiver table scope c.receiver).run s = (.ok receiver, t))
    (hargs : c.args = before ++ a :: after)
    (hbefore : (evaluateArguments table scope before).run t = (.ok values, u))
    (h : Visits table ⟨scope, u, a.value⟩ v) : Visits table ⟨scope, s, .call c⟩ v
  | statement {scope : Scope} {s t u w : σ} {c : Call} {receiver : Option Value}
    {args : List EvaluatedArgument} {b : Block} {before after : List Expr} {e : Expr}
    {es : List Element} {v : Visit σ}
    (hreceiver : (evaluateReceiver table scope c.receiver).run s = (.ok receiver, t))
    (hargs : (evaluateArguments table scope c.args).run t = (.ok args, u))
    (hblock : c.block = some b) (hstatements : b.statements = before ++ e :: after)
    (hbefore : (evaluateStatements table (scope.child c.method) before).run u = (.ok es, w))
    (h : Visits table ⟨scope.child c.method, w, e⟩ v) : Visits table ⟨scope, s, .call c⟩ v
  | sequence {scope : Scope} {s t : σ} {b : Block} {before after : List Expr} {e : Expr}
    {es : List Element} {v : Visit σ} (hstatements : b.statements = before ++ e :: after)
    (hbefore : (evaluateStatements table scope before).run s = (.ok es, t))
    (h : Visits table ⟨scope, t, e⟩ v) : Visits table ⟨scope, s, .sequence b⟩ v

variable {table : Table σ}

/-- What is visited is a node of the expression. So nothing outside of the
program is ever evaluated. -/
theorem Visits.mem_nodes {v w : Visit σ} (h : Visits table v w) : w.expr ∈ v.expr.nodes := by
  induction h with
  | here v => exact mem_nodes_self v.expr
  | receiver hreceiver _ ih => exact mem_nodes_call.2 (.inl ⟨_, hreceiver, ih⟩)
  | argument _ hargs _ _ ih =>
    exact mem_nodes_call.2 (.inr (.inr (.inl ⟨_, by simp [hargs], ih⟩)))
  | statement _ _ hblock hstatements _ _ ih =>
    exact mem_nodes_call.2 (.inr (.inr (.inr ⟨_, hblock, _, by simp [hstatements], ih⟩)))
  | sequence hstatements _ _ ih =>
    exact mem_nodes_sequence.2 (.inr ⟨_, by simp [hstatements], ih⟩)

/-- A visited call is a call of the expression. -/
theorem Visits.mem_calls {v : Visit σ} {scope : Scope} {s : σ} {c : Call}
    (h : Visits table v ⟨scope, s, .call c⟩) : c ∈ v.expr.calls :=
  mem_calls_of_mem_nodes h.mem_nodes

-- ================================================================= invocations

/-- A handler serves a visited call, and is given what the parts of the call
came to, one after the other, from the state of the visit. -/
structure Given (table : Table σ) (scope : Scope) (s : σ) (c : Call) (h : Handled) : Prop where
  serves : table.Serves c h
  parts : ∃ receiver t args u children w,
    (evaluateReceiver table scope c.receiver).run s = (.ok receiver, t)
      ∧ (evaluateArguments table scope c.args).run t = (.ok args, u)
      ∧ (evaluateBlock table scope c.method c.block).run u = (.ok children, w)
      ∧ h.invocation = invocationOf c.method args children c.span

/-- What is run on the way of an evaluation: handlers of visited calls. -/
def Arises (table : Table σ) (v : Visit σ) (h : Handled) : Prop :=
  ∃ scope s c, Visits table v ⟨scope, s, .call c⟩ ∧ Given table scope s c h

/-- A value that an expression came to from some state. -/
def CameTo (table : Table σ) (scope : Scope) (e : Expr) (value : Value) : Prop :=
  ∃ s, ((evaluate table scope e).run s).1 = .ok value

namespace Given

variable {scope : Scope} {s : σ} {c : Call} {h : Handled}

theorem arguments (hgiven : Given table scope s c h) :
    ∃ args children, ArgumentsYield (CameTo table scope) c.args args
      ∧ h.invocation = invocationOf c.method args children c.span := by
  obtain ⟨receiver, t, args, u, children, w, -, hargs, -, hinvocation⟩ := hgiven.parts
  refine ⟨args, children, ?_, hinvocation⟩
  exact evaluateArguments_yields (fun a _ s value h => ⟨s, h⟩) t args (by rw [hargs])

/-- The positional arguments are what those of the call came to, in the order
of the source. -/
theorem positional (hgiven : Given table scope s c h) :
    List.Forall₂ (CameTo table scope) c.positional h.invocation.positional := by
  obtain ⟨args, children, hargs, hinvocation⟩ := hgiven.arguments
  exact hinvocation ▸ hargs.positional children

/-- The named arguments are what those of the call came to, under the same
keys and in the order of the source. -/
theorem named (hgiven : Given table scope s c h) :
    List.Forall₂ (fun a v => v.1 = a.1 ∧ CameTo table scope a.2 v.2) c.named
      h.invocation.named := by
  obtain ⟨args, children, hargs, hinvocation⟩ := hgiven.arguments
  exact hinvocation ▸ hargs.named children

end Given

-- ================================================================== evaluation

variable {P : Handled → Prop} {scope : Scope}

/-- Arguments are tracked one by one, each from where those before it have
led. -/
theorem evaluateArguments_tracksFrom {args : List Argument} {s : σ}
    (h : ∀ before a after values t, args = before ++ a :: after →
      (evaluateArguments table scope before).run s = (.ok values, t) →
      TracksFrom P t (evaluate table scope a.value) (evaluate table.watched scope a.value)) :
    TracksFrom P s (evaluateArguments table scope args)
      (evaluateArguments table.watched scope args) := by
  induction args generalizing s with
  | nil =>
    rw [evaluateArguments, evaluateArguments]
    exact .pure []
  | cons a args ih =>
    rw [evaluateArguments_cons, evaluateArguments_cons]
    have hfirst := h [] a args [] s rfl (by rw [evaluateArguments]; rfl)
    refine hfirst.bind fun value t hvalue => ?_
    refine TracksFrom.bind (ih fun before b after values u hargs hbefore => ?_)
      fun rest u _ => .pure _
    refine h (a :: before) b after ((a.key?, value) :: values) u (by rw [hargs]; rfl) ?_
    rw [evaluateArguments_cons, run_bind, hvalue]
    dsimp only
    rw [run_bind, hbefore]
    rfl

/-- Statements are tracked one by one, each from where those before it have
led. -/
theorem evaluateStatements_tracksFrom {statements : List Expr} {s : σ}
    (h : ∀ before e after es t, statements = before ++ e :: after →
      (evaluateStatements table scope before).run s = (.ok es, t) →
      TracksFrom P t (evaluate table scope e) (evaluate table.watched scope e)) :
    TracksFrom P s (evaluateStatements table scope statements)
      (evaluateStatements table.watched scope statements) := by
  induction statements generalizing s with
  | nil =>
    rw [evaluateStatements_nil, evaluateStatements_nil]
    exact .pure []
  | cons e statements ih =>
    rw [evaluateStatements_cons, evaluateStatements_cons]
    have hfirst := h [] e statements [] s rfl (by rw [evaluateStatements_nil]; rfl)
    refine (hfirst.adaptFailure _).bind fun value t hvalue => ?_
    refine TracksFrom.bind (ih fun before f after es u hstatements hbefore => ?_)
      fun rest u _ => .pure _
    refine h (e :: before) f after (value.elements ++ es) u (by rw [hstatements]; rfl) ?_
    have hthis : (insideScope scope (evaluate table scope e)).run s = (.ok value, t) := hvalue
    rw [evaluateStatements_cons, run_bind, hthis]
    dsimp only
    rw [run_bind, hbefore]
    rfl

theorem isSome_of_evaluateReceiver {receiver : Option Expr} {value : Option Value} {s t : σ}
    (h : (evaluateReceiver table scope receiver).run s = (.ok value, t)) :
    value.isSome = receiver.isSome := by
  cases receiver with
  | none =>
    cases h
    rfl
  | some r =>
    obtain ⟨a, -, rfl⟩ := exists_of_map_ok (congrArg Prod.fst h)
    rfl

variable (table)

/-- A handler that is run is given what the parts of a visited call came to.
This ties what a handler sees to the program: its name, its receiver, its
arguments and the elements of its block. -/
theorem evaluate_visits (e : Expr) (scope : Scope) (s : σ) :
    TracksFrom (Arises table ⟨scope, s, e⟩) s (evaluate table scope e)
      (evaluate table.watched scope e) := by
  induction e using Expr.induct generalizing scope s with
  | literal value span =>
    rw [evaluate, evaluate]
    exact .pure _
  | sequence b ih =>
    rw [evaluate_sequence, evaluate_sequence]
    refine .map _ (evaluateStatements_tracksFrom fun before e after es t hstatements hbefore => ?_)
    refine (ih e (by simp [hstatements]) scope t).mono fun h harises => ?_
    obtain ⟨scope', s', c, hvisits, hgiven⟩ := harises
    exact ⟨scope', s', c, .sequence hstatements hbefore hvisits, hgiven⟩
  | call c hreceiver hargs hblock =>
    -- each part is visited from the state that the parts before it leave; what arises there
    -- arises in the call, one step further down
    have hreceivers : TracksFrom (Arises table ⟨scope, s, .call c⟩) s
        (evaluateReceiver table scope c.receiver)
        (evaluateReceiver table.watched scope c.receiver) := by
      cases hr : c.receiver with
      | none => exact .pure _
      | some r =>
        refine .map _ ((hreceiver r hr scope s).mono fun h harises => ?_)
        obtain ⟨scope', s', d, hvisits, hgiven⟩ := harises
        exact ⟨scope', s', d, .receiver hr hvisits, hgiven⟩
    rw [evaluate_call, evaluate_call]
    refine hreceivers.bind fun receiver t hvalue => ?_
    refine TracksFrom.bind (evaluateArguments_tracksFrom
      fun before a after values u happend hbefore => ?_) fun args u hvalues => ?_
    · refine (hargs a (by simp [happend]) scope u).mono fun h harises => ?_
      obtain ⟨scope', s', d, hvisits, hgiven⟩ := harises
      exact ⟨scope', s', d, .argument hvalue happend hbefore hvisits, hgiven⟩
    refine TracksFrom.bind ?_ fun children w hchildren => ?_
    · cases hb : c.block with
      | none => exact .pure _
      | some b =>
        refine .map _ (evaluateStatements_tracksFrom
          fun before e after es w hstatements hbefore => ?_)
        refine (hblock b hb e (by simp [hstatements]) _ w).mono fun h harises => ?_
        obtain ⟨scope', s', d, hvisits, hgiven⟩ := harises
        exact ⟨scope', s', d, .statement hvalue hvalues hb hstatements hbefore hvisits, hgiven⟩
    -- the call itself: whichever role its handler has, it is given what the parts came to
    · have hsome := isSome_of_evaluateReceiver hvalue
      have harises : ∀ h, table.Serves c h
          → h.invocation = invocationOf c.method args children c.span
          → Arises table ⟨scope, s, .call c⟩ h := by
        intro h hserves hinvocation
        exact ⟨scope, s, c, .here _,
          ⟨hserves, receiver, t, args, u, children, w, hvalue, hvalues, hchildren, hinvocation⟩⟩
      refine TracksFrom.adaptFailure _ (dispatch_tracks table receiver _ ?_ ?_ w)
      · intro hnone hregistered
        rw [hnone] at hsome
        refine harises _ ⟨rfl, rfl, rfl, fun _ => ⟨rfl, hregistered⟩, fun h => ?_⟩ rfl
        rw [← hsome] at h
        cases h
      · intro value hreceiver hregistered e _
        rw [hreceiver] at hsome
        refine harises _ ⟨rfl, rfl, rfl, fun h => ?_, fun _ => ⟨rfl, hregistered⟩⟩ rfl
        rw [h] at hsome
        cases hsome

/-- An expression runs only what serves one of its calls, wherever the call
stands. What a program runs can be told from its calls alone, without running
it. -/
theorem evaluate_tracks (e : Expr) (scope : Scope) :
    Tracks (table.ServesIn e) (evaluate table scope e) (evaluate table.watched scope e) := by
  intro s
  refine (evaluate_visits table e scope s).mono fun h harises => ?_
  obtain ⟨scope', s', c, hvisits, hgiven⟩ := harises
  exact ⟨c, hvisits.mem_calls, hgiven.serves⟩

end UiScript.Execution
