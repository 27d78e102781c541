/-
What a program says is what its output says. The text of the output, from
the first element to the last, is read off the program: its literals, what
its operations are given to show, and what stands in blocks, in the order of
the program. No operation drops, doubles or moves what it shows, and modifiers
say nothing.

# Main statements

* `Expr.content`: what a program says.
* `Execution.execute_textContent`: it is the text of what it comes to.
-/
import UiScript.Proofs.Standard.Contributions

namespace UiScript

open Standard

-- ==================================================================== content

namespace Call

variable (c : Call)

/-- The value of the first argument with a key. -/
def namedValue? (key : String) : Option Expr := (c.named.find? fun a => a.1 == key).map Prod.snd

/-- The first positional argument as it is displayed. -/
def firstText : String := (c.positional.head?.bind Expr.literal?).elim "" Literal.text

/-- What the title says, if one is given. -/
def titleText : String := ((c.namedValue? "title").bind Expr.literal?).elim "" Literal.content

end Call

mutual
/-- What an expression says: a literal itself, a call on something what that
says, and any other call what its operation contributes. -/
def Expr.content : Expr → String
  | .literal value _ => value.content
  | .sequence ⟨statements, _⟩ => statementsContent statements
  | .call ⟨some receiver, _, _, _, _⟩ => receiver.content
  | .call ⟨none, method, args, block, span⟩ =>
    let c : Call := ⟨none, method, args, block, span⟩
    contribution method c.firstText c.titleText (match block with
      | some ⟨statements, _⟩ => statementsContent statements
      | none => "")

/-- What statements say, in order. -/
def statementsContent : List Expr → String
  | [] => ""
  | e :: es => e.content ++ statementsContent es
end

/-- A call on something says what that says; any other call, what its
operation contributes. -/
theorem Expr.content_call (c : Call) :
    (Expr.call c).content = c.receiver.elim (contribution c.method c.firstText c.titleText
      (c.block.elim "" fun b => statementsContent b.statements)) Expr.content := by
  obtain ⟨receiver, method, args, block, span⟩ := c
  rcases receiver with _ | r <;> rcases block with _ | ⟨statements, s⟩ <;> rw [Expr.content] <;> rfl

-- ================================================================== execution

open Element (textOf)

namespace Execution

/-- A value shows an expression if it says what that says, and is the same
literal if it is one. -/
structure Shows (e : Expr) (v : Value) : Prop where
  text : textOf v.elements = e.content
  literal : v.literal? = e.literal?

theorem shows_literal (value : Literal) (span : Span) :
    Shows (.literal value span) (.ofLiteral value) where
  text := by
    have hbare (s : String) : textOf [Element.ofText s] = s := by
      rw [Element.textOf_singleton, Element.textContent_eq]
      exact (congrArg (s ++ ·) Element.textOf_nil).trans String.append_empty
    rw [Expr.content]
    cases value with
    | nil => exact Element.textOf_nil
    | _ => exact hbare _
  literal := Value.literal?_ofLiteral value

/-- Elements that statements come to say what the statements say, in order. -/
theorem StatementsYield.content {statements : List Expr} {es : List Element}
    (h : StatementsYield Shows statements es) : textOf es = statementsContent statements := by
  obtain ⟨values, hvalues, rfl⟩ := h
  induction hvalues with
  | nil => rw [statementsContent, List.flatMap_nil, Element.textOf_nil]
  | cons hthis _ ih =>
    rw [statementsContent, List.flatMap_cons, Element.textOf_append, hthis.text, ih]

/-- What may be a value shows the same literal as what may be an expression,
or none. -/
theorem Shows.literals {e? : Option Expr} {v? : Option Value} (h : Option.Rel Shows e? v?) :
    v?.bind Value.literal? = e?.bind Expr.literal? := by
  cases h with
  | none => rfl
  | some h => exact h.literal

theorem Shows.head? {es : List Expr} {vs : List Value} (h : List.Forall₂ Shows es vs) :
    Option.Rel Shows es.head? vs.head? := by
  cases h with
  | nil => exact .none
  | cons hthis _ => exact .some hthis

/-- The first value under a key shows the first expression under it. -/
theorem Shows.find? {es : List (String × Expr)} {vs : List (String × Value)}
    (h : List.Forall₂ (fun e v => v.1 = e.1 ∧ Shows e.2 v.2) es vs) (key : String) :
    Option.Rel Shows ((es.find? fun e => e.1 == key).map Prod.snd)
      ((vs.find? fun v => v.1 == key).map Prod.snd) := by
  induction h with
  | nil => exact .none
  | @cons e v _ _ hthis _ ih =>
    rw [List.find?_cons, List.find?_cons, hthis.1]
    cases e.1 == key with
    | true => exact .some hthis.2
    | false => exact ih

section

variable {c : Call} {args : List EvaluatedArgument} (h : ArgumentsYield Shows c.args args)
  (children : Option (List Element))
include h

/-- A handler is given the first text that the call has. -/
theorem firstText_invocationOf :
    (invocationOf c.method args children c.span).firstText = c.firstText := by
  rw [Invocation.firstText, Call.firstText, Shows.literals (Shows.head? (h.positional children))]

/-- A handler is given the title that the call has. -/
theorem titleText_invocationOf :
    (invocationOf c.method args children c.span).titleText = c.titleText := by
  have htitle : Option.Rel Shows (c.namedValue? "title")
      ((invocationOf c.method args children c.span).namedArg? "title") :=
    Shows.find? (h.named children) "title"
  rw [Invocation.titleText, Call.titleText, Shows.literals htitle]

end

/-- A call comes to a value that shows it, given that its parts do: an
operation says what it contributes, and a modifier says nothing. -/
theorem call_shows {c : Call} {receiver : Option Value} {args : List EvaluatedArgument}
    {children : Option (List Element)} (h : PartsYield Shows c receiver args children) :
    Action.Yields (dispatch table receiver (invocationOf c.method args children c.span))
      (Shows (.call c)) := by
  obtain ⟨hreceiver, hargs, hchildren⟩ := h
  have hfirst := firstText_invocationOf hargs children
  have htitle := titleText_invocationOf hargs children
  obtain ⟨source, method, arguments, block, span⟩ := c
  cases hreceiver with
  | some hshows =>
    refine (dispatch_modifier_yields _ _).mono fun v hv => ⟨?_, ?_⟩
    · rw [Element.textOf_decorated hv.2, hshows.text, Expr.content_call]
      rfl
    · exact Value.literal?_eq_none hv.1
  | none =>
    have hinside : textOf (children.getD [])
        = block.elim "" fun b => statementsContent b.statements := by
      cases hchildren with
      | none => exact Element.textOf_nil
      | some hstatements => exact hstatements.content
    refine (dispatch_operation_yields _).mono fun v hv => ⟨?_, ?_⟩
    · rw [hv.text, hfirst, htitle, Expr.content_call]
      exact congrArg _ hinside
    · exact Value.literal?_eq_none hv.renderable

/-- An expression comes to a value that shows it, by induction on its
evaluation. -/
theorem evaluate_shows (e : Expr) (scope : Scope) :
    Action.Yields (evaluate table scope e) (Shows e) := by
  refine evaluate_yields shows_literal ?_ (fun _ _ _ _ => call_shows) e scope
  rintro ⟨statements, span⟩ es h
  refine ⟨?_, rfl⟩
  rw [Expr.content]
  exact h.content

/-- What a program comes to says what the program says: nothing is lost,
doubled or moved. -/
theorem execute_textContent {program : Expr} {value : Value}
    (h : ((execute table program).run ()).1 = .ok value) :
    value.renderElement.textContent = program.content := by
  rw [value.textContent_renderElement]
  exact (evaluate_shows program .root () value h).text

/-- A card with a title, and two statements in its block. -/
def titledCard : Expr :=
  .call ⟨none, "card", [.named "title" (.literal (.string "A") ⟨12, 15⟩) ⟨5, 15⟩],
    some ⟨[.literal (.string "B") ⟨19, 22⟩,
      .call ⟨some (.call ⟨none, "text", [.positional (.literal (.number (.int 1)) ⟨29, 30⟩)], none,
        ⟨24, 31⟩⟩), "bold", [], none, ⟨24, 36⟩⟩], ⟨17, 38⟩⟩, ⟨0, 38⟩⟩

/-- It says its title, and then what the statements say. -/
theorem execute_textContent_titledCard : ∃ value,
    ((execute table titledCard).run ()).1 = .ok value
      ∧ value.renderElement.textContent = titledCard.content ∧ titledCard.content = "AB1" :=
  ⟨_, rfl, execute_textContent rfl, rfl⟩

end Execution

end UiScript
