/-
Two sources with a separator on a line of its own between them are one
source, and run like the two of them in a row: no token, no call, no block
and no limit reaches across the joint. If the first one comes to a value,
what the second one contributes is added to it, or the second one fails as
it does on its own, further on.

# Main statements

* `Token.ofSource_join`: the tokens of both, with a separator between them.
* `parseUnder_join`: the statements of both.
* `interpret_join_ok`, `interpret_join_error`: for any table whose handlers
  do not care where a call stands; the host goes through the same states.
* `table_movable`: the standard table is one.
* `interpret_join`: for the standard table.
-/
import UiScript.Proofs.Execution.Moved
import UiScript.Proofs.Grammar.Continuation
import UiScript.Proofs.Pipeline
import UiScript.Proofs.Scanning.Joining
import UiScript.Proofs.Scanning.Tiling
import UiScript.Proofs.Standard.Contributions

namespace UiScript

open Text

-- =================================================================== sources

/-- Two sources, with a separator on a line of its own between them. -/
def joined (a b : String) : String := a ++ "\n;\n" ++ b

/-- How much further on the second source stands. -/
def joint (a : String) : Nat := width a.toList + 3

/-- The characters of the two sources with the separator between its line
breaks. -/
theorem toList_joined (a b : String) :
    (joined a b).toList = a.toList ++ '\n' :: ([';'] ++ '\n' :: b.toList) := by
  simp [joined, String.toList_append]

/-- The joined source is as long as the place of the second one and the second
one. -/
theorem width_joined (a b : String) : width (joined a b).toList = joint a + width b.toList := by
  rw [toList_joined]
  simp only [width_append, width_cons, width_nil, joint]
  have hbreak : Char.utf8Size '\n' = 1 := rfl
  have hmark : Char.utf8Size ';' = 1 := rfl
  omega

namespace Token

/-- The tokens of a separator. -/
theorem scan_separator :
    scan [] 0 [';'] = .ok ([mark ';' ⟨0, 1⟩] ++ [⟨.endOfInput, ⟨1, 1⟩⟩]) :=
  scan_lexeme rfl rfl rfl

/-- If the first source is scanned, so is the joined one: its tokens, a
separator, and the tokens of the second source where it stands now. No token
reaches across the line break. -/
theorem scan_joined {a : String} {us : List Token} {finish : Span}
    (h : scan [] 0 a.toList = .ok (us ++ [⟨.endOfInput, finish⟩])) (b : String) :
    scan [] 0 (joined a b).toList
      = (shiftAll (joint a) (scan [] 0 b.toList)).map
        (us ++ mark ';' (Span.shift (width a.toList + 1) ⟨0, 1⟩) :: ·) := by
  rw [toList_joined, scan_join h, scan_join scan_separator, shiftAll_map_append, shiftAll_shiftAll]
  cases scan [] 0 b.toList <;> rfl

/-- Joined sources have the tokens of both, with a separator between them. -/
theorem ofSource_join {a b : String} {tokens : List Token}
    (hwidth : joint a + width b.toList ≤ Span.maxOffset) (h : ofSource a = .ok tokens) :
    ∃ us finish point, tokens = us ++ [⟨.endOfInput, finish⟩]
      ∧ (∀ t ∈ us, t.isComment = false) ∧ (∀ t ∈ us, t.kind ≠ .endOfInput)
      ∧ ofSource (joined a b)
        = (shiftAll (joint a) (ofSource b)).map (us ++ mark ';' point :: ·) := by
  have ha : width a.toList ≤ Span.maxOffset := by
    unfold joint at hwidth
    omega
  have hb : width b.toList ≤ Span.maxOffset := by omega
  rw [ofSource_eq_scan ha] at h
  cases hscan : scan [] 0 a.toList with
  | error e =>
    rw [hscan] at h
    cases h
  | ok ts =>
    rw [hscan] at h
    cases h
    obtain ⟨us, rfl, hends, -⟩ := scan_tokens hscan
    refine ⟨us.filter fun t => !t.isComment, _, Span.shift (width a.toList + 1) ⟨0, 1⟩,
      List.filter_append .., ?_, ?_, ?_⟩
    · intro t ht
      simpa using (List.mem_filter.1 ht).2
    · intro t ht hkind
      have hend := hends t (List.mem_filter.1 ht).1
      rw [hkind] at hend
      cases hend
    -- comments of either source are left out of the joined one, too
    · rw [ofSource_eq_scan (by rw [width_joined]; exact hwidth), scan_joined hscan,
        ofSource_eq_scan hb]
      cases scan [] 0 b.toList with
      | error e => rfl
      | ok bs =>
        show Except.ok _ = Except.ok _
        rw [List.filter_append, List.filter_cons_of_pos rfl, List.filter_map]
        rfl

end Token

-- ================================================================== programs

namespace Interpreter

open Execution Standard

variable {i : Interpreter} {a b : String}

/-- Joined sources have the statements of both, and fail to be read as the
second one does. Behind the separator the parser stands where it would stand
at the start of the second source, with no delimiter open. -/
theorem parseUnder_join {policy : Policy} {program : Expr}
    (hwidth : joint a + width b.toList ≤ Span.maxOffset)
    (ha : i.parseUnder policy a = .ok program) :
    ∃ es, es ≠ [] ∧ program = ParseRules.rootOf es ∧
      match i.parseUnder policy b with
      | .ok program' => ∃ fs, fs ≠ [] ∧ program' = ParseRules.rootOf fs
        ∧ i.parseUnder policy (joined a b)
          = .ok (ParseRules.rootOf (es ++ fs.map (Expr.shift (joint a))))
      | .error e => (∀ span, e ≠ .parsing (.grammar ⟨span, .emptyInput⟩)) →
        i.parseUnder policy (joined a b) = .error (e.shift (joint a)) := by
  obtain ⟨tokens, htokens, hparse⟩ := parseUnder_eq_ok_iff.1 ha
  obtain ⟨us, finish, point, rfl, hcomments, hends, hjoined⟩ := Token.ofSource_join hwidth htokens
  have hb : width b.toList ≤ Span.maxOffset := by omega
  have hwhole : i.parseUnder policy (joined a b) = _ := parseUnder_eq policy
  rw [hjoined] at hwhole
  rw [parseUnder_eq]
  -- the second source has no tokens, or its tokens are joined to those of the first one
  cases hsource : Token.ofSource b with
  | error e =>
    rw [hsource] at hwhole
    obtain ⟨d, -, -, -, -, rfl⟩ := ParseRules.derivation_of_parse_append hcomments hends hparse
    exact ⟨_, List.cons_ne_nil _ _, rfl, fun _ => hwhole⟩
  | ok bs =>
    rw [hsource] at hwhole
    have hwhole : i.parseUnder policy (joined a b)
        = ((⟨policy, i.config.options⟩ : ParseRules).parse
          (us ++ Token.mark ';' point :: bs.map (Token.shift (joint a)))).mapError .parsing :=
      hwhole
    obtain ⟨es, hes, rfl, hmatch⟩ := ParseRules.parse_join point (joint a) hcomments hends hparse
      (Token.exists_end_of_ofSource hb hsource)
    refine ⟨es, hes, rfl, ?_⟩
    rw [hwhole]
    dsimp only
    cases hbs : (⟨policy, i.config.options⟩ : ParseRules).parse bs with
    | ok program' =>
      rw [hbs] at hmatch
      obtain ⟨fs, hfs, rfl, hall⟩ := hmatch
      rw [hall]
      exact ⟨fs, hfs, rfl, rfl⟩
    | error e =>
      rw [hbs] at hmatch
      intro hne
      rw [hmatch fun span he => hne span (by rw [he])]
      rfl

-- =================================================================== results

variable {σ : Type} {table : Table σ} {s t u : σ} {va vb : Value}

/-- A source that comes to a value was parsed, and its program was executed. -/
theorem parseUnder_of_interpret_ok (h : i.interpret table a s = (.ok va, t)) :
    ∃ program, i.parseUnder (i.policyFor table) a = .ok program
      ∧ (execute table program).run s = (.ok va, t) := by
  cases hparse : i.parseUnder (i.policyFor table) a with
  | error e =>
    rw [interpret_of_parse_error hparse] at h
    cases h
  | ok program =>
    refine ⟨program, rfl, ?_⟩
    rw [interpret_of_parse_ok hparse] at h
    rcases hrun : (execute table program).run s with ⟨e | v, r⟩
    · rw [hrun] at h
      cases h
    · rw [hrun] at h
      cases h
      rfl

/-- Two sources that come to values come, in a row, to what they contribute.
The second program starts from the state in which the first one leaves the
host. -/
theorem interpret_join_ok (hmovable : table.Movable)
    (hwidth : joint a + width b.toList ≤ Span.maxOffset)
    (ha : i.interpret table a s = (.ok va, t)) (hb : i.interpret table b t = (.ok vb, u)) :
    i.interpret table (joined a b) s = (.ok (.fragment (va.elements ++ vb.elements)), u) := by
  obtain ⟨program, hparse, hrun⟩ := parseUnder_of_interpret_ok ha
  obtain ⟨program', hparse', hrun'⟩ := parseUnder_of_interpret_ok hb
  obtain ⟨es, hes, rfl, hmatch⟩ := parseUnder_join hwidth hparse
  rw [hparse'] at hmatch
  obtain ⟨fs, hfs, rfl, hall⟩ := hmatch
  rw [interpret_of_parse_ok hall, execute_rootOf_append _ hmovable hes hfs, run_bind, hrun]
  simp only [run_bind, run_adaptFailure, hrun']
  rfl

/-- If the second source fails, so do the two of them in a row, further on.
What the first source did to the host by then is done. -/
theorem interpret_join_error (hmovable : table.Movable)
    (hwidth : joint a + width b.toList ≤ Span.maxOffset) {e : Failure}
    (ha : i.interpret table a s = (.ok va, t)) (hb : (i.interpret table b t).1 = .error e)
    (hne : ∀ span, e ≠ .parsing (.grammar ⟨span, .emptyInput⟩)) :
    (i.interpret table (joined a b) s).1 = .error (e.shift (joint a)) := by
  obtain ⟨program, hparse, hrun⟩ := parseUnder_of_interpret_ok ha
  obtain ⟨es, hes, rfl, hmatch⟩ := parseUnder_join hwidth hparse
  cases hparse' : i.parseUnder (i.policyFor table) b with
  | error e' =>
    rw [interpret_of_parse_error hparse'] at hb
    cases hb
    rw [hparse'] at hmatch
    rw [interpret_of_parse_error (hmatch hne)]
  | ok program' =>
    rw [hparse'] at hmatch
    obtain ⟨fs, hfs, rfl, hall⟩ := hmatch
    rw [interpret_of_parse_ok hparse'] at hb
    rw [interpret_of_parse_ok hall, execute_rootOf_append _ hmovable hes hfs, run_bind, hrun]
    simp only [run_bind, run_adaptFailure]
    rcases hrun' : (execute table (ParseRules.rootOf fs)).run t with ⟨x | v, r⟩
    · rw [hrun'] at hb
      cases hb
      rfl
    · rw [hrun'] at hb
      cases hb

end Interpreter

-- ========================================================= the standard table

namespace Standard

/-- No operation looks at where its call stands. -/
theorem operations_blind :
    ∀ o ∈ operations, ∀ (inv : Invocation) (span : Span), o.2 { inv with span } = o.2 inv := by
  simp only [operations, List.mem_cons, List.not_mem_nil, or_false, forall_eq_or_imp, forall_eq]
  refine ⟨?_, ?_, ?_, ?_, ?_, ?_, ?_, ?_, ?_, ?_, ?_, ?_, ?_, ?_, ?_⟩ <;> intro inv span <;> rfl

/-- No modifier looks at where its call stands. -/
theorem modifiers_blind :
    ∀ m ∈ modifiers, ∀ (e : Element) (inv : Invocation) (span : Span),
      m.2 e { inv with span } = m.2 e inv := by
  simp only [modifiers, List.mem_cons, List.not_mem_nil, or_false, forall_eq_or_imp, forall_eq]
  refine ⟨?_, ?_, ?_, ?_, ?_, ?_, ?_, ?_, ?_, ?_, ?_, ?_, ?_, ?_, ?_, ?_, ?_, ?_⟩ <;>
    intro e inv span <;> rfl

/-- What fails plainly fails in the same way wherever it stands. -/
theorem ofChecked_eq_adaptFailure {σ α : Type} {r : Checked α} (h : Checked.FailsPlainly r)
    (d : Nat) : (Action.ofChecked r : Action σ α)
      = Execution.adaptFailure (ExecutionError.shift d) (Action.ofChecked r) := by
  refine Execution.run_ext fun s => ?_
  rw [Execution.run_adaptFailure, Execution.run_ofChecked]
  cases r with
  | ok a => rfl
  | error e =>
    show (Except.error e, s) = (Except.error (e.shift d), s)
    rw [ExecutionError.shift_of_span_eq_none d (h e rfl).span]

/-- The handlers of the standard table do not care where a call stands. Their
failures have no span of their own, and nothing that they make depends on the
span of the call. -/
theorem table_movable : table.Movable := by
  constructor
  · intro name operation hfound d inv
    obtain ⟨o, hfind, rfl⟩ := exists_of_operation? hfound
    have ho := Table.mem_of_find? hfind
    show Action.ofChecked ((name, o).2 (inv.shift d)) = _
    rw [Invocation.shift, operations_blind _ ho]
    exact ofChecked_eq_adaptFailure (operations_contribute _ ho inv).fails d
  · intro name modifier hfound d e inv
    obtain ⟨m, hfind, rfl⟩ := exists_of_modifier? hfound
    have hm := Table.mem_of_find? hfind
    show Action.ofChecked ((name, m).2 e (inv.shift d)) = _
    rw [Invocation.shift, modifiers_blind _ hm]
    exact ofChecked_eq_adaptFailure (modifiers_decorate _ hm e inv).fails d

end Standard

namespace Interpreter

/-- Sources run in a row as they run on their own: if the first one comes to a
value, the two come to what both contribute, or fail as the second one fails,
with every span moved past the joint. -/
theorem interpret_join {i : Interpreter} {a b : String} {va : Value}
    (hwidth : joint a + width b.toList ≤ Span.maxOffset)
    (ha : (i.interpret Standard.table a ()).1 = .ok va) :
    (∀ vb, (i.interpret Standard.table b ()).1 = .ok vb →
      (i.interpret Standard.table (joined a b) ()).1
        = .ok (.fragment (va.elements ++ vb.elements)))
    ∧ ∀ e, (i.interpret Standard.table b ()).1 = .error e →
      (∀ span, e ≠ .parsing (.grammar ⟨span, .emptyInput⟩)) →
      (i.interpret Standard.table (joined a b) ()).1 = .error (e.shift (joint a)) := by
  have ha : i.interpret Standard.table a () = (.ok va, ()) := Prod.ext ha rfl
  constructor
  · intro vb hb
    have hb : i.interpret Standard.table b () = (.ok vb, ()) := Prod.ext hb rfl
    rw [interpret_join_ok Standard.table_movable hwidth ha hb]
  · intro e hb hne
    exact interpret_join_error Standard.table_movable hwidth ha hb hne

/-- A first source that comes to an element. -/
theorem interpret_divider :
    openly.interpret Standard.table "divider" () = (.ok (.element (.ofTag "hr")), ()) := by
  rw [interpret_name (by decide) (by decide) scan_divider]
  rfl

/-- A second source that fails, at its first and only name. -/
theorem interpret_nope :
    openly.interpret Standard.table "nope" ()
      = (.error (.execution ⟨.unknownOperation "nope", some ⟨0, 4⟩, none⟩), ()) := by
  have hscan : Token.scan [] 0 "nope".toList
      = .ok [⟨.identifier "nope", ⟨0, 4⟩⟩, ⟨.endOfInput, ⟨4, 4⟩⟩] :=
    Token.scan_lexeme rfl rfl rfl
  rw [interpret_name (by decide) (by decide) hscan]
  rfl

/-- A name behind another one: one that is offered, and one that is not. -/
theorem interpret_join_divider :
    joint "divider" + width "divider".toList ≤ Span.maxOffset
      ∧ joint "divider" + width "nope".toList ≤ Span.maxOffset
      ∧ (openly.interpret Standard.table "divider" ()).1 = .ok (.element (.ofTag "hr"))
      ∧ (openly.interpret Standard.table "divider
;
divider" ()).1
        = .ok (.fragment [.ofTag "hr", .ofTag "hr"])
      ∧ (openly.interpret Standard.table "divider
;
nope" ()).1
        = .error (.execution ⟨.unknownOperation "nope", some ⟨10, 14⟩, none⟩) := by
  have hdivider := congrArg Prod.fst interpret_divider
  have hnope := congrArg Prod.fst interpret_nope
  have hwidth : joint "divider" + width "divider".toList ≤ Span.maxOffset := by decide
  have hwidth' : joint "divider" + width "nope".toList ≤ Span.maxOffset := by decide
  refine ⟨hwidth, hwidth', hdivider, ?_, ?_⟩
  · exact (interpret_join hwidth hdivider).1 _ hdivider
  · refine (interpret_join hwidth' hdivider).2 _ hnope ?_
    intro span h
    cases h

end Interpreter

end UiScript
