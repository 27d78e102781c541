/-
The trace of a run: which calls are dispatched, where they stand, what they
are given and what comes of them. An expression can be evaluated with any
server for its calls (`evaluateVia`); evaluation is the one that dispatches
them, and a trace is kept by a server that dispatches them to an answering
table and makes a record of it. Servers see the site of a call, so that a
record can be held against the program.

# Main statements

* `evaluateVia_dispatch`: evaluation is evaluation with dispatches.
* `Follows.bind_of_yields`: records of one action after the other.
* `evaluateVia_traced`: the records of an expression are about its sites, in
  order, up to the first dispatch that fails; its failure is the one that
  the expression fails with, told where the call stands.
* `execute_recorded`: the same for programs.
-/
import UiScript.Proofs.Execution.Answered
import UiScript.Proofs.Execution.Yields
import UiScript.Proofs.Program.Sites

namespace UiScript

variable {σ τ α β : Type}

-- ================================================================== locating

namespace Scope

/-- Inside the blocks of the given calls, which are listed from the outside
in. -/
def ofOwners (owners : List Call) : Scope := ⟨(owners.map Call.method).reverse⟩

/-- A failure as it is told on the way out of a scope. -/
def tell (scope : Scope) (e : ExecutionError) : ExecutionError :=
  if scope.isRoot then e else e.within scope.path

/-- The scope of a block inside of blocks is the child of theirs. -/
theorem ofOwners_append (owners : List Call) (c : Call) :
    ofOwners (owners ++ [c]) = (ofOwners owners).child c.method := by
  simp [ofOwners, child]

/-- A scope is told by the names of the calls, from the outside in. -/
theorem path_ofOwners (owners : List Call) :
    (ofOwners owners).path = " > ".intercalate (owners.map Call.method) := by
  simp [ofOwners, path]

/-- A scope is the root if no block is around. -/
theorem isRoot_ofOwners (owners : List Call) : (ofOwners owners).isRoot = owners.isEmpty := by
  cases owners <;> simp [ofOwners, isRoot]

/-- What is told inside a block is not told again outside. -/
theorem tell_tell_child (scope : Scope) (owner : String) (e : ExecutionError) :
    scope.tell ((scope.child owner).tell e) = (scope.child owner).tell e := by
  unfold tell
  rw [isRoot_child]
  split
  · rfl
  · simp [ExecutionError.within]

/-- What is told in a scope is not told in it again. -/
theorem tell_tell (scope : Scope) (e : ExecutionError) : scope.tell (scope.tell e) = scope.tell e := by
  unfold tell
  split
  · rfl
  · simp [ExecutionError.within]

end Scope

/-- A failure of the call of a site, located at the call and inside the blocks
around it. -/
def Site.locate (site : Site) (e : ExecutionError) : ExecutionError :=
  (Scope.ofOwners site.owners).tell (e.withSpan site.call.span)

namespace Execution

-- =================================================================== servers

/-- What calls are handed to: it knows where the call stands, and is given
what a handler is given. -/
abbrev Server (σ : Type) := Site → Option Value → Invocation → Action σ Value

mutual
/-- The value of an expression whose calls are handed to a server; `owners`
have it in their blocks. -/
def evaluateVia (serve : Server σ) (owners : List Call) : Expr → Action σ Value
  | .literal value _ => pure (.ofLiteral value)
  | .call ⟨receiver, method, args, block, span⟩ => do
    let value ← (match receiver with
      | some r => some <$> evaluateVia serve owners r
      | none => pure none)
    let values ← argumentsVia serve owners args
    let children ← (match block with
      | some ⟨statements, _⟩ =>
        some <$> statementsVia serve (owners ++ [⟨receiver, method, args, block, span⟩]) statements
      | none => pure none)
    adaptFailure (·.withSpan span)
      (serve ⟨⟨receiver, method, args, block, span⟩, owners⟩ value
        (invocationOf method values children span))
  | .sequence ⟨statements, _⟩ => Value.fragment <$> statementsVia serve owners statements

/-- The values of arguments, from left to right. -/
def argumentsVia (serve : Server σ) (owners : List Call) :
    List Argument → Action σ (List EvaluatedArgument)
  | [] => pure []
  | .positional value :: args => do
    let value ← evaluateVia serve owners value
    let rest ← argumentsVia serve owners args
    pure ((none, value) :: rest)
  | .named key value _ :: args => do
    let value ← evaluateVia serve owners value
    let rest ← argumentsVia serve owners args
    pure ((some key, value) :: rest)

/-- What statements contribute, in order. -/
def statementsVia (serve : Server σ) (owners : List Call) : List Expr → Action σ (List Element)
  | [] => pure []
  | statement :: statements => do
    let value ← insideScope (.ofOwners owners) (evaluateVia serve owners statement)
    let rest ← statementsVia serve owners statements
    pure (value.elements ++ rest)
end

section Parts

variable (serve : Server σ) (owners : List Call)

/-- The value of a receiver, if there is one. -/
def receiverVia : Option Expr → Action σ (Option Value)
  | none => pure none
  | some r => some <$> evaluateVia serve owners r

/-- What the block of a call comes to, if there is one. -/
def blockVia (owner : Call) : Option Block → Action σ (Option (List Element))
  | none => pure none
  | some b => some <$> statementsVia serve (owners ++ [owner]) b.statements

/-- A call by its parts: the receiver, the arguments and the block come before
it is served. -/
theorem evaluateVia_call (c : Call) :
    evaluateVia serve owners (.call c) = (do
      let receiver ← receiverVia serve owners c.receiver
      let args ← argumentsVia serve owners c.args
      let children ← blockVia serve owners c c.block
      adaptFailure (·.withSpan c.span)
        (serve ⟨c, owners⟩ receiver (invocationOf c.method args children c.span))) := by
  obtain ⟨receiver, method, args, block, span⟩ := c
  rcases receiver with _ | r <;> rcases block with _ | ⟨statements, s⟩ <;>
    rw [evaluateVia] <;> rfl

/-- Arguments one by one, from left to right. -/
theorem argumentsVia_cons (a : Argument) (args : List Argument) :
    argumentsVia serve owners (a :: args) = (do
      let value ← evaluateVia serve owners a.value
      let rest ← argumentsVia serve owners args
      pure ((a.key?, value) :: rest)) := by
  cases a <;> rw [argumentsVia] <;> rfl

/-- A program of several statements makes one fragment of what they come to. -/
theorem evaluateVia_sequence (b : Block) :
    evaluateVia serve owners (.sequence b)
      = Value.fragment <$> statementsVia serve owners b.statements := by
  obtain ⟨statements, span⟩ := b
  rw [evaluateVia]

end Parts

-- ================================================================ dispatches

/-- Arguments served by dispatches are arguments evaluated, given that each of
them is. -/
theorem argumentsVia_dispatch {table : Table σ} {owners : List Call} {args : List Argument}
    (h : ∀ a ∈ args, evaluateVia (fun _ => dispatch table) owners a.value
      = evaluate table (.ofOwners owners) a.value) :
    argumentsVia (fun _ => dispatch table) owners args
      = evaluateArguments table (.ofOwners owners) args := by
  induction args with
  | nil => rw [argumentsVia, evaluateArguments]
  | cons a args ih =>
    obtain ⟨hthis, hrest⟩ := List.forall_mem_cons.1 h
    rw [argumentsVia_cons, evaluateArguments_cons, hthis, ih hrest]

/-- Statements served by dispatches are statements evaluated, each in its
scope. -/
theorem statementsVia_dispatch {table : Table σ} {owners : List Call} {es : List Expr}
    (h : ∀ e ∈ es, evaluateVia (fun _ => dispatch table) owners e
      = evaluate table (.ofOwners owners) e) :
    statementsVia (fun _ => dispatch table) owners es
      = evaluateStatements table (.ofOwners owners) es := by
  induction es with
  | nil => rw [statementsVia, evaluateStatements_nil]
  | cons e es ih =>
    obtain ⟨hthis, hrest⟩ := List.forall_mem_cons.1 h
    rw [statementsVia, evaluateStatements_cons, hthis, ih hrest]

/-- Evaluation is evaluation with dispatches. What is proved with servers is
thereby proved of evaluation. -/
theorem evaluateVia_dispatch (table : Table σ) (e : Expr) (owners : List Call) :
    evaluateVia (fun _ => dispatch table) owners e = evaluate table (.ofOwners owners) e := by
  induction e using Expr.induct generalizing owners with
  | literal value span => rw [evaluateVia, evaluate]
  | sequence b ih =>
    rw [evaluateVia_sequence, evaluate_sequence, statementsVia_dispatch fun e he => ih e he owners]
  | call c hreceiver hargs hblock =>
    have hreceivers : receiverVia (fun _ => dispatch table) owners c.receiver
        = evaluateReceiver table (.ofOwners owners) c.receiver := by
      cases hr : c.receiver with
      | none => rfl
      | some r => rw [receiverVia, evaluateReceiver, hreceiver r hr]
    have hblocks : blockVia (fun _ => dispatch table) owners c c.block
        = evaluateBlock table (.ofOwners owners) c.method c.block := by
      cases hb : c.block with
      | none => rfl
      | some b =>
        rw [blockVia, evaluateBlock, statementsVia_dispatch fun e he => hblock b hb e he _,
          Scope.ofOwners_append]
    rw [evaluateVia_call, evaluate_call, hreceivers,
      argumentsVia_dispatch fun a ha => hargs a ha owners, hblocks]

-- =================================================================== records

end Execution

/-- A call that was dispatched: where it stands, what it is called on and
with, the runs of its handler, and what came of it. -/
structure Dispatched where
  site : Site
  receiver : Option Value
  invocation : Invocation
  handled : List Answered
  outcome : Checked Value

namespace Dispatched

open Execution

/-- The record of a dispatch is of the call at its site, with its receiver;
its outcome is what the dispatch comes to in some state, and its runs are
those that the dispatch is made of. -/
structure Regular (table : Table σ) (d : Dispatched) : Prop where
  method : d.invocation.method = d.site.call.method
  span : d.invocation.span = d.site.call.span
  receiver : d.receiver.isSome = d.site.call.receiver.isSome
  outcome : ∃ s, ((dispatch table d.receiver d.invocation).run s).1 = d.outcome
  serving : table.Serving d.receiver d.invocation d.handled d.outcome

/-- The dispatch failed, and a failure that is told in `scope` is what it
failed with, told where its call stands. -/
def Blames (scope : Scope) (d : Dispatched) (e : ExecutionError) : Prop :=
  ∃ failure, d.outcome = .error failure ∧ scope.tell e = d.site.locate failure

end Dispatched

namespace Execution

/-- Dispatches a call to an answering table, and makes a record of it. -/
def dispatchRecorded (table : Table σ) : Server (σ × List Dispatched) :=
  fun site receiver inv p =>
    let run := (dispatch table.answering receiver inv).run (p.1, [])
    (run.1, run.2.1, p.2 ++ [⟨site, receiver, inv, run.2.2, run.1⟩])

/-- A recorded dispatch is run on a log of its own, which becomes part of its
record. -/
theorem run_dispatchRecorded (table : Table σ) (site : Site) (receiver : Option Value)
    (inv : Invocation) (s : σ) (before : List Dispatched) :
    (dispatchRecorded table site receiver inv).run (s, before) =
      match (dispatch table.answering receiver inv).run (s, []) with
      | (outcome, t, runs) => (outcome, t, before ++ [⟨site, receiver, inv, runs, outcome⟩]) := rfl

/-- The records of the dispatches of a program, in the order in which they are
made. -/
def trace (table : Table σ) (program : Expr) (s : σ) : List Dispatched :=
  ((evaluateVia (dispatchRecorded table) [] program).run (s, [])).2.2

variable {table : Table σ} {scope : Scope} {sites more : List Site} {P : α → Prop}

/-- Records of the dispatches that an action makes from a state: `answering`
and `recorded` do the same, with a log of the answers and with the records;
and the records are regular, and about `sites`. -/
structure Recorded (table : Table σ) (scope : Scope) (sites : List Site) (plain : Action σ α)
    (answering : Action (σ × List Answered) α) (recorded : Action (σ × List Dispatched) α) (s : σ)
    (new : List Dispatched) : Prop where
  answers : ∀ log, answering.run (s, log)
    = ((plain.run s).1, (plain.run s).2, log ++ new.flatMap Dispatched.handled)
  records : ∀ before, recorded.run (s, before) = ((plain.run s).1, (plain.run s).2, before ++ new)
  regular : ∀ d ∈ new, d.Regular table
  covers : Covers Dispatched.site Dispatched.outcome (Dispatched.Blames scope) sites new
    (plain.run s).1

/-- From every state there are records of what an action does. -/
def Follows (table : Table σ) (scope : Scope) (sites : List Site) (plain : Action σ α)
    (answering : Action (σ × List Answered) α) (recorded : Action (σ × List Dispatched) α) : Prop :=
  ∀ s, ∃ new, Recorded table scope sites plain answering recorded s new

namespace Follows

variable {x : Action σ α} {y : Action (σ × List Answered) α} {z : Action (σ × List Dispatched) α}

theorem pure (a : α) :
    Follows table scope [] (pure a : Action σ α) (Pure.pure a) (Pure.pure a) := by
  intro s
  refine ⟨[], fun log => ?_, fun before => ?_, by simp, .nil a⟩
  · rw [run_pure, run_pure, List.flatMap_nil, List.append_nil]
  · rw [run_pure, run_pure, List.append_nil]

/-- The records of one action after the other: those of both, or those of the
first one if that fails. -/
theorem bind_of_yields {f : α → Action σ β} {g : α → Action (σ × List Answered) β}
    {k : α → Action (σ × List Dispatched) β} (h : Follows table scope sites x y z)
    (hx : x.Yields P) (hf : ∀ a, P a → Follows table scope more (f a) (g a) (k a)) :
    Follows table scope (sites ++ more) (x >>= f) (y >>= g) (z >>= k) := by
  intro s
  obtain ⟨new, hanswers, hrecords, hregular, hcovers⟩ := h s
  rcases hrun : x.run s with ⟨e | a, t⟩
  · simp only [hrun] at hanswers hrecords hcovers
    refine ⟨new, fun log => ?_, fun before => ?_, hregular, ?_⟩
    · rw [run_bind, run_bind, hanswers, hrun]
    · rw [run_bind, run_bind, hrecords, hrun]
    · rw [run_bind, hrun]
      exact hcovers.stop
  · simp only [hrun] at hanswers hrecords hcovers
    obtain ⟨rest, hanswersRest, hrecordsRest, hregularRest, hcoversRest⟩ :=
      hf a (hx s a (by rw [hrun])) t
    refine ⟨new ++ rest, fun log => ?_, fun before => ?_, fun d hd => ?_, ?_⟩
    · rw [run_bind, run_bind, hanswers, hrun]
      simp only [hanswersRest, List.flatMap_append, List.append_assoc]
    · rw [run_bind, run_bind, hrecords, hrun]
      simp only [hrecordsRest, List.append_assoc]
    · exact (List.mem_append.1 hd).elim (hregular d) (hregularRest d)
    · rw [run_bind, hrun]
      exact hcovers.append hcoversRest

/-- The records of two actions in a row are those of the first one and then
those of the second one, whose sites come behind. -/
theorem bind {f : α → Action σ β} {g : α → Action (σ × List Answered) β}
    {k : α → Action (σ × List Dispatched) β} (h : Follows table scope sites x y z)
    (hf : ∀ a, Follows table scope more (f a) (g a) (k a)) :
    Follows table scope (sites ++ more) (x >>= f) (y >>= g) (z >>= k) :=
  h.bind_of_yields (P := fun _ => True) (fun _ _ _ => trivial) fun a _ => hf a

/-- What is made of the outcome adds no record. -/
theorem map (f : α → β) (h : Follows table scope sites x y z) :
    Follows table scope sites (f <$> x) (f <$> y) (f <$> z) := by
  intro s
  obtain ⟨new, hanswers, hrecords, hregular, hcovers⟩ := h s
  refine ⟨new, fun log => ?_, fun before => ?_, hregular, ?_⟩
  · rw [run_map, run_map, hanswers]
  · rw [run_map, run_map, hrecords]
  · rw [run_map]
    exact hcovers.change (fun a ha => ⟨f a, by rw [ha]; rfl⟩)
      fun e he => ⟨e, by rw [he]; rfl, fun _ _ hblames => hblames⟩

/-- A failure that is told in a scope is one that need not be told outside. -/
theorem inside {outer : Scope} (htell : ∀ e, outer.tell (scope.tell e) = scope.tell e)
    (h : Follows table scope sites x y z) :
    Follows table outer sites (insideScope scope x) (insideScope scope y) (insideScope scope z) := by
  intro s
  obtain ⟨new, hanswers, hrecords, hregular, hcovers⟩ := h s
  refine ⟨new, fun log => ?_, fun before => ?_, hregular, ?_⟩
  · rw [insideScope, run_adaptFailure, insideScope, run_adaptFailure, hanswers]
  · rw [insideScope, run_adaptFailure, insideScope, run_adaptFailure, hrecords]
  · rw [insideScope, run_adaptFailure]
    refine hcovers.change (fun a ha => ⟨a, by rw [ha]; rfl⟩) fun e he => ?_
    refine ⟨scope.tell e, by rw [he]; rfl, ?_⟩
    rintro d - ⟨failure, hfailure, htold⟩
    exact ⟨failure, hfailure, (htell e).trans htold⟩

end Follows

-- ================================================================ evaluation

variable (table)

/-- A call is recorded when its parts are there. -/
theorem dispatch_follows {c : Call} (owners : List Call) {receiver : Option Value}
    {inv : Invocation} (hmethod : inv.method = c.method) (hspan : inv.span = c.span)
    (hreceiver : receiver.isSome = c.receiver.isSome) :
    Follows table (.ofOwners owners) [⟨c, owners⟩]
      (adaptFailure (·.withSpan c.span) (dispatch table receiver inv))
      (adaptFailure (·.withSpan c.span) (dispatch table.answering receiver inv))
      (adaptFailure (·.withSpan c.span) (dispatchRecorded table ⟨c, owners⟩ receiver inv)) := by
  intro s
  obtain ⟨runs, hlog, hserving⟩ := dispatch_answering table receiver inv s
  have hrecord : ∀ before, (dispatchRecorded table ⟨c, owners⟩ receiver inv).run (s, before)
      = (((dispatch table receiver inv).run s).1, ((dispatch table receiver inv).run s).2,
        before ++ [⟨⟨c, owners⟩, receiver, inv, runs, ((dispatch table receiver inv).run s).1⟩]) := by
    intro before
    rw [run_dispatchRecorded, hlog, List.nil_append]
  refine ⟨[⟨⟨c, owners⟩, receiver, inv, runs, ((dispatch table receiver inv).run s).1⟩],
    fun log => ?_, fun before => ?_, ?_, ?_⟩
  · rw [run_adaptFailure, run_adaptFailure, hlog, List.flatMap_singleton]
  · rw [run_adaptFailure, run_adaptFailure, hrecord]
  · intro d hd
    rw [List.mem_singleton.1 hd]
    exact ⟨hmethod, hspan, hreceiver, ⟨s, rfl⟩, hserving⟩
  · rw [run_adaptFailure]
    cases ((dispatch table receiver inv).run s).1 with
    | ok value => exact ⟨rfl, by simp⟩
    | error failure => exact ⟨[], _, [], rfl, rfl, by simp, failure, rfl, rfl⟩

/-- Records of what is done with the calls, whatever they are handed to. -/
def Traced (table : Table σ) (scope : Scope) (sites : List Site)
    (act : ∀ {τ : Type}, Server τ → Action τ α) : Prop :=
  Follows table scope sites (act fun _ => dispatch table) (act fun _ => dispatch table.answering)
    (act (dispatchRecorded table))

variable {table} {owners : List Call}

/-- The records of arguments are about their sites, argument by argument. -/
theorem argumentsVia_traced {args : List Argument}
    (h : ∀ a ∈ args, Traced table scope (a.value.sites owners)
      fun serve => evaluateVia serve owners a.value) :
    Traced table scope (argumentSites owners args) fun serve => argumentsVia serve owners args := by
  induction args with
  | nil => exact Follows.pure []
  | cons a args ih =>
    obtain ⟨hthis, hrest⟩ := List.forall_mem_cons.1 h
    simp only [Traced, argumentSites_cons, argumentsVia_cons]
    exact Follows.bind hthis fun value => (ih hrest).map fun rest => (a.key?, value) :: rest

/-- The records of statements are about their sites. A failure in one of them
is told in its scope first, and telling it further out must change nothing. -/
theorem statementsVia_traced {outer : Scope} {es : List Expr}
    (htell : ∀ e, outer.tell ((Scope.ofOwners owners).tell e) = (Scope.ofOwners owners).tell e)
    (h : ∀ e ∈ es, Traced table (.ofOwners owners) (e.sites owners)
      fun serve => evaluateVia serve owners e) :
    Traced table outer (statementSites owners es) fun serve => statementsVia serve owners es := by
  induction es with
  | nil => exact Follows.pure []
  | cons e es ih =>
    obtain ⟨hthis, hrest⟩ := List.forall_mem_cons.1 h
    simp only [Traced, statementSites, statementsVia]
    refine (Follows.inside htell hthis).bind fun value => ?_
    exact (ih hrest).map fun rest => value.elements ++ rest

/-- The records of an expression are about its sites. They come in the order
in which calls are due, up to the first dispatch that fails, and what the
whole fails with is told where that call stands. -/
theorem evaluateVia_traced (e : Expr) (owners : List Call) :
    Traced table (.ofOwners owners) (e.sites owners) fun serve => evaluateVia serve owners e := by
  induction e using Expr.induct generalizing owners with
  | literal value span => exact Follows.pure _
  | sequence b ih =>
    obtain ⟨statements, span⟩ := b
    exact (statementsVia_traced (Scope.tell_tell _) fun e he => ih e he owners).map Value.fragment
  | call c hreceiver hargs hblock =>
    have hreceivers : Traced table (.ofOwners owners) (c.receiver.elim [] (Expr.sites owners))
        fun serve => receiverVia serve owners c.receiver := by
      cases hr : c.receiver with
      | none => exact Follows.pure none
      | some r => exact (hreceiver r hr owners).map some
    have hblocks : Traced table (.ofOwners owners)
        (c.block.elim [] fun b => statementSites (owners ++ [c]) b.statements)
        fun serve => blockVia serve owners c c.block := by
      cases hb : c.block with
      | none => exact Follows.pure none
      | some b =>
        refine (statementsVia_traced (fun e => ?_) fun e he => hblock b hb e he _).map some
        rw [Scope.ofOwners_append]
        exact Scope.tell_tell_child ..
    -- whether there is a receiver is known before it is evaluated, and servers may rely on it
    have hyields : Action.Yields (receiverVia (fun _ => dispatch table) owners c.receiver)
        fun receiver => receiver.isSome = c.receiver.isSome := by
      cases c.receiver with
      | none => exact .pure rfl
      | some r => exact .map fun _ _ _ => rfl
    simp only [Traced, sites_call, evaluateVia_call]
    refine Follows.bind_of_yields hreceivers hyields fun receiver hreceived => ?_
    refine Follows.bind (argumentsVia_traced fun a ha => hargs a ha owners) fun args => ?_
    refine Follows.bind hblocks fun children => ?_
    exact dispatch_follows table owners rfl rfl hreceived

-- ================================================================== programs

/-- The trace of a program is a record of what it does. The three runs of a
program, the plain one, the one that logs answers and the one that makes
records, go through the same states. -/
theorem execute_recorded (table : Table σ) (program : Expr) (s : σ) :
    Recorded table .root (program.sites []) (execute table program)
      (execute table.answering program) (evaluateVia (dispatchRecorded table) [] program) s
      (trace table program s) := by
  obtain ⟨new, hnew⟩ := evaluateVia_traced program [] s
  have htrace : trace table program s = new := by rw [trace, hnew.records, List.nil_append]
  simp only [evaluateVia_dispatch] at hnew
  rw [htrace]
  exact hnew

end Execution

end UiScript
