/-
Reading a program drops no word and invents none. The names, the keys and the
literals of a program are told apart among its tokens by a look at one token
more: a name with a colon after it is a key, and every other name is called.
What is read holds the same words, each of them in its role, in the same
order, and nothing else.

Only what is read counts: comments are no words, and what stands after the
first end of the input is not looked at, if there is an end at all.

# Main statements

* `roles_of_parse`: the words of a program that is read are those of the
  tokens that are read.
* `words_of_parse`: its names, its keys and its literals, read off the tokens
  one by one.
-/
import UiScript.Proofs.Grammar.Acceptance

namespace UiScript

open Token (front mark)

-- ===================================================================== tokens

namespace Token

/-- The tokens that are read: up to the first end of the input, comments left
out. -/
def visible (tokens : List Token) : List Token :=
  (tokens.filter fun t => !t.isComment).takeWhile fun t => !t.kind.isEnd

/-- The name that a token is. -/
def Kind.name? : Kind → Option String
  | .identifier name => some name
  | _ => none

/-- The names among some tokens whose next token is of a kind that `p` takes;
`next` follows the tokens. -/
def names (p : Kind → Bool) (next : Kind) : List Token → List String
  | [] => []
  | t :: ts => (if p (front next ts) then t.kind.name?.toList else []) ++ names p next ts

/-- The values of the literals among some tokens. -/
def literals (tokens : List Token) : List Literal :=
  tokens.filterMap fun t => Literal.ofToken? t.kind

/-- What is visible of a list are the tokens of a derivation that reaches up
to its end. -/
theorem visible_eq {tokens ts rest : List Token}
    (hseen : tokens.filter (fun t => !t.isComment) = ts ++ rest)
    (hts : ∀ t ∈ ts, t.kind.isEnd = false) (hrest : front .endOfInput rest = .endOfInput) :
    visible tokens = ts := by
  have hstop : rest.takeWhile (fun t => !t.kind.isEnd) = [] := by
    cases rest with
    | nil => rfl
    | cons t rest =>
      have hkind : t.kind = .endOfInput := hrest
      rw [List.takeWhile_cons, hkind]
      rfl
  unfold visible
  rw [hseen, List.takeWhile_append_of_pos fun t ht => by rw [hts t ht]; rfl, hstop,
    List.append_nil]

/-- What is picked from the words of some tokens is picked token by token. -/
theorem filterMap_roles {α : Type} (pick : Role → Option α) (next : Kind) (t : Token)
    (ts : List Token) : ((roles next (t :: ts)).map Prod.fst).filterMap pick
      = ((t.kind.role? (front next ts)).bind pick).toList
        ++ ((roles next ts).map Prod.fst).filterMap pick := by
  rw [roles, List.map_append, List.filterMap_append]
  cases t.kind.role? (front next ts) with
  | none => rfl
  | some role => cases hrole : pick role <;> simp [hrole]

theorem Kind.role?_called (kind next : Kind) :
    (kind.role? next).bind Role.called? = if !next.isMark ':' then kind.name? else none := by
  by_cases hcolon : next = .punctuation ':'
  · cases kind <;> simp [role?, hcolon, isMark, Role.called?, Literal.ofToken?]
  · have hmark : next.isMark ':' = false := Bool.eq_false_iff.2 fun h => hcolon (isMark_iff.1 h)
    cases kind <;> simp [role?, hcolon, hmark, Role.called?, Literal.ofToken?, name?]

theorem Kind.role?_key (kind next : Kind) :
    (kind.role? next).bind Role.key? = if next.isMark ':' then kind.name? else none := by
  by_cases hcolon : next = .punctuation ':'
  · cases kind <;> simp [role?, hcolon, isMark, Role.key?, Literal.ofToken?, name?]
  · have hmark : next.isMark ':' = false := Bool.eq_false_iff.2 fun h => hcolon (isMark_iff.1 h)
    cases kind <;> simp [role?, hcolon, hmark, Role.key?, Literal.ofToken?]

theorem Kind.role?_literal (kind next : Kind) :
    (kind.role? next).bind Role.literal? = Literal.ofToken? kind := by
  by_cases hcolon : next = .punctuation ':'
  · cases kind <;> simp [role?, hcolon, Role.literal?, Literal.ofToken?]
  · cases kind <;> simp [role?, hcolon, Role.literal?, Literal.ofToken?]

/-- The words of one role that are names are the names that `p` tells from the
others. -/
theorem filterMap_roles_eq_names {pick : Role → Option String} {p : Kind → Bool}
    (h : ∀ kind next : Kind, (kind.role? next).bind pick = if p next then kind.name? else none)
    (next : Kind) (ts : List Token) :
    ((roles next ts).map Prod.fst).filterMap pick = names p next ts := by
  induction ts with
  | nil => rfl
  | cons t ts ih =>
    rw [filterMap_roles, names, ih, h]
    by_cases hp : p (front next ts) = true
    · rw [if_pos hp, if_pos hp]
    · rw [if_neg hp, if_neg hp]
      rfl

/-- What comes after a literal is no matter. -/
theorem filterMap_roles_eq_literals (next : Kind) (ts : List Token) :
    ((roles next ts).map Prod.fst).filterMap Role.literal? = literals ts := by
  induction ts with
  | nil => rfl
  | cons t ts ih =>
    rw [filterMap_roles, ih, Kind.role?_literal]
    unfold literals
    rw [List.filterMap_cons]
    cases Literal.ofToken? t.kind <;> rfl

end Token

-- ================================================================== programs

namespace ParseRules

variable {rules : ParseRules} {tokens : List Token} {node : Expr}

/-- The words of a program that is read are those of the tokens that are read.
Both lists are those of the derivation, one read off its tokens and one off
its expression. -/
theorem roles_of_parse (h : rules.parse tokens = .ok node) :
    node.roles = (Token.roles .endOfInput (Token.visible tokens)).map Prod.fst := by
  obtain ⟨-, d, rest, hseen, hrest, hends, -, rfl⟩ := derivation_of_parse h
  rw [Token.visible_eq hseen hends hrest, d.roles_tokens, d.roles_expr]

/-- Whatever the tokens are: what is called in a program that is read are the
names with anything but a colon after them, the keys are the names with a
colon after them, and the literals are the literals, all of them in the order
of the tokens. -/
theorem words_of_parse (h : rules.parse tokens = .ok node) :
    node.methodNames
        = Token.names (fun kind => !kind.isMark ':') .endOfInput (Token.visible tokens)
      ∧ node.keys = Token.names (fun kind => kind.isMark ':') .endOfInput (Token.visible tokens)
      ∧ node.literals = Token.literals (Token.visible tokens) := by
  have hroles := roles_of_parse h
  refine ⟨?_, ?_, ?_⟩
  · rw [← node.filterMap_called_roles, hroles,
      Token.filterMap_roles_eq_names Token.Kind.role?_called]
  · rw [← node.filterMap_key_roles, hroles, Token.filterMap_roles_eq_names Token.Kind.role?_key]
  · rw [← node.filterMap_literal_roles, hroles, Token.filterMap_roles_eq_literals]

/-- `(nil).box(card, gap: 1) do :small end` -/
def keyedChain : Derivation.Program :=
  ⟨[], .mk
    (.parenthesized ⟨0, 1⟩ (.mk (.literal .nil ⟨1, 4⟩) .none) ⟨4, 5⟩)
    (.more ⟨5, 6⟩
      (.mk "box" ⟨6, 9⟩
        (.list ⟨9, 10⟩
          (.more (.positional (.mk (.call (.mk "card" ⟨10, 14⟩ .none .none)) .none)) ⟨14, 15⟩
            (.last (.named "gap" ⟨16, 19⟩ ⟨19, 20⟩
              (.mk (.literal (.number (.int 1)) ⟨21, 22⟩) .none))))
          ⟨22, 23⟩)
        (.fenced .keywords ⟨24, 26⟩
          (.more [] (.mk (.literal (.symbol "small") ⟨27, 33⟩) .none) (.done []))
          ⟨34, 37⟩))
      .none),
    .done []⟩

/-- A receiver in parentheses, and a comment between a key and its colon; what
stands after the end of the input is not read. -/
theorem words_of_parse_keyedChain :
    let tokens : List Token := keyedChain.tokens.take 11 ++ ⟨.comment "# g", ⟨19, 22⟩⟩
      :: (keyedChain.tokens.drop 11
        ++ [⟨.endOfInput, ⟨37, 37⟩⟩, ⟨.identifier "eval", ⟨37, 41⟩⟩])
    strictly.parse tokens = .ok keyedChain.expr
      ∧ keyedChain.expr.methodNames = ["box", "card"] ∧ keyedChain.expr.keys = ["gap"]
      ∧ keyedChain.expr.literals = [.nil, .number (.int 1), .symbol "small"] := by
  intro tokens
  have hparse : strictly.parse tokens = .ok keyedChain.expr := by
    refine parse_of_derivation rfl rfl rfl ⟨by decide, by decide, by decide, by decide⟩
  exact ⟨hparse, words_of_parse hparse⟩

end ParseRules

end UiScript
