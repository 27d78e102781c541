/-
The text of a node. The characters of a source from the start of a node's
span to its end are a program of their own, which is that node and nothing
else, if no receiver along its chain is written in parentheses. Of such
parentheses the span has the closing one only, and then those characters are
no program at all.

# The argument

A node is cut from the tokens of its source, where it is a chain or lacks a
parenthesis (`Derivation.Program.excerpts`); its tokens are, moved to the
beginning, those of its characters (`Token.scan_excerpt`); and what is read
of moved tokens is what is read of them, moved as well (`parse_map_shift`).

# Main statements

* `Expr.Bare`: no receiver along a chain is in parentheses.
* `parse_map_shift`: reading moved tokens.
* `Whole.parse_eq`, `Broken.parse_ne`: reading the two kinds of tokens that a
  node is cut from.
* `Excerpt.exists_text`: the text that these tokens are the tokens of.
* `excerpts_parse`: the text of every node of a source.
-/
import UiScript.Proofs.Comments
import UiScript.Proofs.Grammar.Excerpts
import UiScript.Proofs.Nesting
import UiScript.Proofs.Scanning.Excerpts

namespace UiScript

open Text

-- ================================================================ receivers

/-- The kind of the first token from an offset on, comments left out. -/
def Token.kindFrom (tokens : List Token) (offset : Nat) : Token.Kind :=
  Token.front .endOfInput
    ((tokens.filter fun t => !t.isComment).dropWhile fun t => t.span.start < offset)

/-- No receiver along a chain is in parentheses: a point comes right behind
each. -/
def Expr.Bare (tokens : List Token) (e : Expr) : Prop :=
  ∀ r ∈ e.receivers, Token.kindFrom tokens r.span.stop = .punctuation '.'

namespace Token

/-- What stands right behind a token comes from its end on. -/
theorem kindFrom_of_behind {tokens ts rest : List Token} {offset : Nat} {kind : Kind}
    (hseen : tokens.filter (fun t => !t.isComment) = ts ++ rest) (hts : Consecutive ts)
    (h : Behind ts offset kind) : kindFrom tokens offset = kind := by
  obtain ⟨before, t, u, after, rfl, rfl, rfl⟩ := h
  have hnonempty := hts.nonempty
  obtain ⟨-, hordered, hbefore⟩ := List.pairwise_append.1 hts.ordered
  have hpassed : ∀ v ∈ before ++ [t], decide (v.span.start < t.span.stop) = true := by
    intro v hv
    refine decide_eq_true ?_
    have ht := hnonempty t (by simp)
    rcases List.mem_append.1 hv with hv | hv
    · have hthis := hnonempty v (by simp [hv])
      have hle := hbefore v hv t List.mem_cons_self
      omega
    · rw [List.mem_singleton.1 hv]
      exact ht
  have hnext : ¬ u.span.start < t.span.stop :=
    Nat.not_lt.2 ((List.pairwise_cons.1 hordered).1 u List.mem_cons_self)
  have hsplit : before ++ t :: u :: after ++ rest
      = (before ++ [t]) ++ u :: (after ++ rest) := by simp
  rw [kindFrom, hseen, hsplit, List.dropWhile_append_of_pos hpassed,
    List.dropWhile_cons_of_neg (by simpa using hnext)]
  rfl

end Token

namespace Derivation

variable {rules : ParseRules} {tokens us : List Token} {n : Expr}

theorem Whole.isBare {d : Chain} (h : Whole rules us n d)
    (hbehind : ∀ {offset kind}, Token.Behind us offset kind → Token.kindFrom tokens offset = kind) :
    n.Bare tokens :=
  fun r hr => hbehind (h.bare r hr)

theorem Broken.not_isBare (h : Broken us n)
    (hbehind : ∀ {offset kind}, Token.Behind us offset kind → Token.kindFrom tokens offset = kind) :
    ¬ n.Bare tokens := by
  intro hbare
  obtain ⟨r, hr, hclosed⟩ := h.enclosed
  have hdot := hbare r hr
  rw [hbehind hclosed] at hdot
  cases hdot

end Derivation

-- ============================================================= moved tokens

theorem rootOf_map_shift (d : Nat) {es : List Expr} (h : es ≠ []) :
    ParseRules.rootOf (es.map (Expr.shift d)) = (ParseRules.rootOf es).shift d := by
  match es with
  | [only] => rfl
  | first :: second :: rest =>
    have hlast : ((second :: rest).map (Expr.shift d)).getLastD (first.shift d)
        = ((second :: rest).getLastD first).shift d := by
      simp only [List.getLastD_eq_getLast?, List.getLast?_map, Option.getD_map]
    show Expr.sequence ⟨_, (first.shift d).span.merge
      (((second :: rest).map (Expr.shift d)).getLastD (first.shift d)).span⟩
      = (Expr.sequence ⟨first :: second :: rest, _⟩).shift d
    rw [hlast, Expr.span_shift, Expr.span_shift, Span.merge_shift, Expr.shift_sequence]
    rfl

namespace ParseRules

variable {rules : ParseRules}

/-- What is read of moved tokens is moved as they are. Nothing is cut short
here: the rules are the same for both readings. -/
theorem parse_map_shift (rules : ParseRules) (d : Nat) {tokens : List Token}
    (hends : ∃ t ∈ tokens, t.kind.isEnd = true) :
    Agree d (fun _ => False) (fun m m' => m' = m.shift d) (rules.parse tokens)
      (rules.parse (tokens.map (Token.shift d))) := by
  obtain ⟨hrests, hseen, -⟩ := Cursor.ofTokens_spec tokens
  obtain ⟨hrests', hseen', -⟩ := Cursor.ofTokens_spec (tokens.map (Token.shift d))
  -- two fresh cursors see the same tokens, moved
  have haligned : (ParseState.mk (Cursor.ofTokens tokens) 0).Aligned d
      ⟨Cursor.ofTokens (tokens.map (Token.shift d)), 0⟩ := by
    refine ⟨hrests, hrests', ?_, rfl, fun _ => ?_⟩
    · rw [hseen, hseen', List.filter_map]
      rfl
    · obtain ⟨t, ht, hend⟩ := hends
      have hcomment : t.isComment = false := Token.Kind.isComment_eq_false_of_isEnd hend
      exact ⟨t, hseen ▸ List.mem_filter.2 ⟨ht, by rw [hcomment]; rfl⟩, hend⟩
  have hstart : (startOf tokens).Aligned d (startOf (tokens.map (Token.shift d))) :=
    haligned.skipSeparators
  rw [parse_eq, parse_eq, checkMarks_map_shift, hstart.atEnd]
  cases refuse (checkMarks tokens) with
  | error failure => exact .fail rfl
  | ok _ =>
    show Agree d _ _ (if (startOf tokens).cursor.atEnd = true then _ else _) (if _ then _ else _)
    split
    · exact .fail (hstart.failHere rfl)
    · next hend =>
      refine (readProgram_agrees (Stricter.refl d rules) [] [] hstart).bind ?_
      intro es es' hprogram hnew
      obtain ⟨new, rfl, rfl⟩ := hnew
      have hne := readProgram_ne_nil hprogram (.inr (Bool.eq_false_iff.2 hend))
      exact rootOf_map_shift d hne

-- ==================================================================== nodes

/-- The nodes of what is admitted are admitted. -/
theorem Admits.node {e n : Expr} (h : rules.Admits e) (hn : n ∈ e.nodes) : rules.Admits n := by
  induction e using Expr.induct with
  | literal value span =>
    rw [List.mem_singleton.1 hn]
    exact h
  | sequence b ih =>
    obtain rfl | ⟨e, he, hn⟩ := mem_nodes_sequence.1 hn
    · exact h
    · exact ih e he (admits_sequence_iff.1 h e he) hn
  | call c hreceiver hargs hblock =>
    obtain ⟨hr, -, ha, hb⟩ := admits_call_iff.1 h
    obtain ⟨r, hr', hn⟩ | rfl | ⟨a, ha', hn⟩ | ⟨b, hb', e, he, hn⟩ := mem_nodes_call.1 hn
    · exact hreceiver r hr' (hr r hr') hn
    · exact h
    · exact hargs a ha' (ha a ha') hn
    · exact hblock b hb' e he (hb b hb' e he) hn

end ParseRules

namespace Derivation

open Token (opened closed)

variable {rules : ParseRules} {ps : List Token} {n : Expr} {k : Nat}

/-- Tokens that are a chain are read as what the chain stands for, moved as
they are. All of the rules admit the node in its program, so they admit it on
its own. -/
theorem Whole.parse_eq {d : Chain} (h : Whole rules (ps.map (Token.shift k)) n d)
    (hadmits : rules.Admits n) (hcomments : ∀ t ∈ ps, t.isComment = false)
    (hmarks : ParseRules.checkMarks (ps.map (Token.shift k)) = .ok ()) (finish : Span) :
    ∃ m, rules.parse (ps ++ [⟨.endOfInput, finish⟩]) = .ok m ∧ m.shift k = n := by
  obtain ⟨htokens, rfl, hstands, -⟩ := h
  have hpassing : rules.Passing ⟨[], d, .done []⟩ := by
    refine ⟨⟨hstands.greedy, trivial⟩, ?_, ?_, hadmits⟩
    · simpa [Program.depth, Body.depth] using hstands.fits
    · simpa [Program.longest, Body.longest] using hstands.short
  have hmoved : rules.parse ((ps ++ [⟨.endOfInput, finish⟩] : List Token).map (Token.shift k))
      = .ok d.expr := by
    have hseen : ((ps ++ [⟨.endOfInput, finish⟩] : List Token).map (Token.shift k)).filter
          (fun t => !t.isComment)
        = Program.tokens ⟨[], d, .done []⟩ ++ [⟨.endOfInput, finish.shift k⟩] := by
      rw [List.map_append]
      refine (ParseRules.filter_visible (finish.shift k) ?_).trans ?_
      · intro t ht
        obtain ⟨p, hp, rfl⟩ := List.mem_map.1 ht
        exact hcomments p hp
      · simp [Program.tokens, Body.tokens, htokens]
    refine ParseRules.parse_of_derivation ?_ hseen rfl hpassing
    rw [List.map_append, ParseRules.checkMarks_append hmarks]
    rfl
  have hagrees := ParseRules.parse_map_shift rules k
    ⟨⟨.endOfInput, finish⟩, List.mem_append_right ps (List.mem_singleton_self _), rfl⟩
  rw [hmoved] at hagrees
  cases hread : rules.parse (ps ++ [⟨.endOfInput, finish⟩]) with
  | error failure =>
    rw [hread] at hagrees
    cases hagrees.of_error
  | ok m =>
    rw [hread] at hagrees
    exact ⟨m, rfl, Eq.symm hagrees⟩

/-- Tokens that lack a parenthesis are not read, under any rules, wherever
they stand. What is derived has as many closing parentheses as opening ones,
and these tokens have not. -/
theorem Broken.parse_ne (h : Broken (ps.map (Token.shift k)) n)
    (hcomments : ∀ t ∈ ps, t.isComment = false) (hends : ∀ t ∈ ps, t.kind.isEnd = false)
    (finish : Span) (rules : ParseRules) (m : Expr) :
    rules.parse (ps ++ [⟨.endOfInput, finish⟩]) ≠ .ok m := by
  intro hparse
  obtain ⟨-, d, rfl, -, -⟩ := ParseRules.derivation_of_parse_append hcomments
    (fun t ht => Token.ne_endOfInput_iff.2 (hends t ht)) hparse
  have hopened : opened (d.tokens.map (Token.shift k)) = opened d.tokens := List.countP_map
  have hclosed : closed (d.tokens.map (Token.shift k)) = closed d.tokens := List.countP_map
  have hbalanced := d.sound_tokens.balanced
  have hunbalanced := h.unbalanced
  omega

end Derivation

-- ==================================================================== texts

/-- Elements in a row of what is kept of a list come from a part of the list
that starts and stops with them. -/
theorem exists_part_of_filter {α : Type} {p : α → Bool} {l before us after : List α} {u : α}
    (h : l.filter p = before ++ (u :: us ++ after)) :
    ∃ pre mid post, l = pre ++ (u :: mid ++ post) ∧ pre.filter p = before
      ∧ (u :: mid).filter p = u :: us ∧ (u :: mid).getLast? = (u :: us).getLast? := by
  obtain ⟨pre, l', rfl, hpre, h⟩ := List.filter_eq_append_iff.1 h
  obtain ⟨part, post, rfl, hpart, -⟩ := List.filter_eq_append_iff.1 h
  -- nothing that is left out stands behind the last element
  obtain ⟨init, w, hsplit⟩ : ∃ init w, u :: us = init ++ [w] :=
    ⟨_, _, (List.dropLast_concat_getLast (List.cons_ne_nil u us)).symm⟩
  rw [hsplit] at hpart
  obtain ⟨first, last, rfl, hfirst, hlast⟩ := List.filter_eq_append_iff.1 hpart
  obtain ⟨skipped, more, rfl, hskipped, hw, -⟩ := List.filter_eq_cons_iff.1 hlast
  have hkept : (first ++ (skipped ++ [w])).filter p = u :: us := by
    rw [hsplit, List.filter_append, List.filter_append, hfirst, List.filter_eq_nil_iff.2 hskipped]
    simp [hw]
  -- and nothing stands before the first one
  obtain ⟨gap, mid, hmid, hgap, hu, hus⟩ := List.filter_eq_cons_iff.1 hkept
  refine ⟨pre ++ gap, mid, more ++ post, ?_, ?_, ?_, ?_⟩
  · have hall : first ++ (skipped ++ w :: more) = gap ++ u :: mid ++ more := by
      rw [← hmid]
      simp
    rw [hall]
    simp
  · rw [List.filter_append, hpre, List.filter_eq_nil_iff.2 hgap, List.append_nil]
  · rw [List.filter_cons_of_pos hu, hus]
  · have hends := congrArg List.getLast? hmid
    rw [hsplit]
    simpa [List.getLast?_append] using hends.symm

namespace Token

variable {all before us after : List Token} {s : Span} {cs : List Char}

/-- What is no comment is kept. -/
theorem mem_visible {ts : List Token} {t : Token} (ht : t ∈ ts) (hcomment : t.isComment = false) :
    t ∈ ts.filter fun t => !t.isComment :=
  List.mem_filter.2 ⟨ht, by rw [hcomment]; rfl⟩

/-- Tokens in a row, comments left out, are, moved to the beginning, those of
what stands between the start of the first one and the end of the last one. -/
theorem exists_text (hscan : scan [] 0 cs = .ok all)
    (hvisible : all.filter (fun t => !t.isComment) = before ++ (us ++ after)) (hreach : Reach us s)
    (hends : ∀ t ∈ before ++ us, t.kind.isEnd = false)
    (hequals : ∀ t ∈ us, t.kind ≠ .punctuation '=') :
    ∃ text vs finish, slice? s.start s.stop cs = some text ∧ width text ≤ width cs
      ∧ scan [] 0 text = .ok (vs ++ [⟨.endOfInput, finish⟩])
      ∧ (vs.filter fun t => !t.isComment).map (shift s.start) = us := by
  obtain ⟨u, us, rfl⟩ := List.exists_cons_of_ne_nil hreach.ne_nil
  have hstart : u.span.start = s.start := Option.some.inj hreach.starts
  obtain ⟨pre, mid, post, rfl, hpre, hmid, hlast⟩ := exists_part_of_filter hvisible
  have hkept : ∀ t ∈ u :: mid, t.isComment = false → t ∈ u :: us :=
    fun t ht hcomment => hmid ▸ mem_visible ht hcomment
  -- comments stand among the tokens that are seen, and none of them is the end of the input or
  -- an equals sign
  have hpreEnds : ∀ t ∈ pre, t.kind.isEnd = false := by
    intro t ht
    refine Bool.eq_false_iff.2 fun hend => ?_
    have hmem : t ∈ before := hpre ▸ mem_visible ht (Kind.isComment_eq_false_of_isEnd hend)
    exact Bool.eq_false_iff.1 (hends t (List.mem_append_left _ hmem)) hend
  have hmidKinds : ∀ t ∈ u :: mid, t.kind.isEnd = false ∧ t.kind ≠ .punctuation '=' := by
    intro t ht
    constructor
    · refine Bool.eq_false_iff.2 fun hend => ?_
      have hmem := hkept t ht (Kind.isComment_eq_false_of_isEnd hend)
      exact Bool.eq_false_iff.1 (hends t (List.mem_append_right _ hmem)) hend
    · intro hkind
      exact hequals t (hkept t ht (by rw [isComment, hkind]; rfl)) hkind
  have hu : u.isComment = false := by
    have hmem : u ∈ (u :: mid).filter fun t => !t.isComment := hmid ▸ List.mem_cons_self
    simpa using (List.mem_filter.1 hmem).2
  -- with the comments in between these are consecutive tokens of the scan
  obtain ⟨passed, text, more, vs, finish, rfl, hpassed, hstop, htext, hvs⟩ :=
    scan_excerpt hscan hpreEnds hmidKinds hu (hlast ▸ hreach.stops)
  refine ⟨text, vs, finish, ?_, ?_, htext, ?_⟩
  · rw [← hstop, ← hstart, ← hpassed]
    exact slice?_width_append passed text more
  · simp only [width_append]
    omega
  · rw [← hmid, ← hvs, hstart, List.filter_map]
    rfl

end Token

/-- The text of what is cut from tokens, and the tokens of that text. -/
theorem Derivation.Excerpt.exists_text {rules : ParseRules} {all ts rest : List Token}
    {cs : List Char} {n : Expr} (h : Derivation.Excerpt rules ts n)
    (hscan : Token.scan [] 0 cs = .ok all)
    (hvisible : all.filter (fun t => !t.isComment) = ts ++ rest)
    (hends : ∀ t ∈ ts, t.kind.isEnd = false) (hsound : Token.Sound ts) :
    ∃ text vs us finish, slice? n.span.start n.span.stop cs = some text ∧ width text ≤ width cs
      ∧ Token.scan [] 0 text = .ok (vs ++ [⟨.endOfInput, finish⟩])
      ∧ us = (vs.filter fun t => !t.isComment)
      ∧ us.map (Token.shift n.span.start) <:+: ts
      ∧ ((∃ d, Derivation.Whole rules (us.map (Token.shift n.span.start)) n d)
        ∨ Derivation.Broken (us.map (Token.shift n.span.start)) n) := by
  obtain ⟨before, us, after, rfl, hreach, hcut⟩ := h
  rw [List.append_assoc, List.append_assoc] at hvisible
  have hnoEnd : ∀ t ∈ before ++ us, t.kind.isEnd = false := by
    intro t ht
    refine hends t ?_
    rw [← List.append_assoc]
    exact List.mem_append_left after ht
  have hequals : ∀ t ∈ us, t.kind ≠ .punctuation '=' :=
    fun t ht => hsound.noEquals t (by simp [ht])
  obtain ⟨text, vs, finish, hslice, hle, htext, rfl⟩ :=
    Token.exists_text hscan hvisible hreach hnoEnd hequals
  exact ⟨text, vs, _, finish, hslice, hle, htext, rfl, ⟨before, after, by simp⟩, hcut⟩

namespace ParseRules

variable {rules : ParseRules} {comments : Bool} {source : String} {tokens : List Token}
  {node : Expr}

/-- What is kept of tokens, comments or not, comes to the same program. -/
theorem parse_filter_isKept (rules : ParseRules) (comments : Bool) (all : List Token) :
    rules.parse (all.filter (Token.isKept comments))
      = rules.parse (all.filter fun t => !t.isComment) := by
  cases comments with
  | false => rfl
  | true =>
    rw [Token.filter_isKept_true, parse_filter_comments]

theorem filter_isKept_visible (comments : Bool) (all : List Token) :
    (all.filter (Token.isKept comments)).filter (fun t => !t.isComment)
      = all.filter fun t => !t.isComment := by
  rw [List.filter_filter]
  refine List.filter_congr fun t _ => ?_
  rw [Token.isKept]
  cases comments <;> cases t.isComment <;> rfl

theorem checkMarks_of_subset {ts us : List Token} (h : checkMarks ts = .ok ()) (hus : us ⊆ ts) :
    checkMarks us = .ok () :=
  checkMarks_eq_ok_iff.2 fun t ht => checkMarks_eq_ok_iff.1 h t (hus ht)

/-- A text that can be scanned is read from its tokens without the comments. -/
theorem exists_tokens_of_scan (comments : Bool) {text : List Char} {vs : List Token} {finish : Span}
    (hwidth : width text ≤ Span.maxOffset)
    (h : Token.scan [] 0 text = .ok (vs ++ [⟨.endOfInput, finish⟩])) :
    ∃ us, Token.ofSourceKeeping comments (String.ofList text) = .ok us
      ∧ ∀ rules : ParseRules, rules.parse us
        = rules.parse ((vs.filter fun t => !t.isComment) ++ [⟨.endOfInput, finish⟩]) := by
  refine ⟨(vs ++ [⟨.endOfInput, finish⟩] : List Token).filter (Token.isKept comments), ?_,
    fun rules => ?_⟩
  · rw [← String.toList_ofList (l := text)] at hwidth h
    rw [Token.ofSourceKeeping_eq_scan comments hwidth, h]
    rfl
  · rw [parse_filter_isKept, List.filter_append]
    rfl

/-- The text of a node is that node. From the start to the end of the span of
any call or literal in what is read from a source, the characters are a source
of their own. If no receiver along the chain is in parentheses, they are read
as the node, moved to the beginning; else they are no program, under any
rules. -/
theorem excerpts_parse (hwidth : width source.toList ≤ Span.maxOffset)
    (htokens : Token.ofSourceKeeping comments source = .ok tokens)
    (hparse : rules.parse tokens = .ok node) :
    ∀ n ∈ node.nodes, (∀ b, n ≠ .sequence b) →
      ∃ text us, slice? n.span.start n.span.stop source.toList = some text
        ∧ Token.ofSourceKeeping comments (String.ofList text) = .ok us
        ∧ (n.Bare tokens → ∃ m, rules.parse us = .ok m ∧ m.shift n.span.start = n)
        ∧ (¬ n.Bare tokens → ∀ (rules' : ParseRules) (m : Expr), rules'.parse us ≠ .ok m) := by
  obtain ⟨all, hscan, rfl⟩ := Token.scan_of_ofSourceKeeping hwidth htokens
  obtain ⟨hmarks, d, rest, hseen, -, hends, hpassing, rfl⟩ := derivation_of_parse hparse
  have hconsecutive : Token.Consecutive d.tokens := by
    refine (Token.scan_tiles hscan).consecutive ?_ hends
    refine (List.sublist_append_left d.tokens rest).trans ?_
    rw [← hseen]
    exact List.filter_sublist.trans List.filter_sublist
  intro n hn hstatement
  -- in the tokens of the program the node has an excerpt, and so it has in the text
  have hexcerpt : Derivation.Excerpt rules d.tokens n :=
    (d.excerpts hpassing n hn).resolve_left fun ⟨b, hb⟩ => hstatement b hb
  obtain ⟨text, vs, ps, finish, hslice, hle, htext, rfl, hwithin, hcut⟩ :=
    hexcerpt.exists_text hscan ((filter_isKept_visible comments all).symm.trans hseen) hends
      d.sound_tokens
  obtain ⟨us, hus, hread⟩ := exists_tokens_of_scan comments (Nat.le_trans hle hwidth) htext
  have hcomments : ∀ t ∈ vs.filter fun t => !t.isComment, t.isComment = false :=
    fun t ht => by simpa using (List.mem_filter.1 ht).2
  have hnoEnd : ∀ t ∈ vs.filter fun t => !t.isComment, t.kind.isEnd = false :=
    fun t ht => hends (t.shift n.span.start) (hwithin.subset (List.mem_map_of_mem ht))
  have hbehind {offset : Nat} {kind : Token.Kind} (h : Token.Behind _ offset kind) :
      Token.kindFrom (all.filter (Token.isKept comments)) offset = kind :=
    Token.kindFrom_of_behind hseen hconsecutive (h.of_within hwithin)
  refine ⟨text, us, hslice, hus, ?_⟩
  simp only [hread]
  -- the excerpt is a chain of its own, or lacks the opening one of its parentheses
  rcases hcut with ⟨c, hwhole⟩ | hbroken
  · have hsub : d.tokens ⊆ all.filter (Token.isKept comments) := by
      intro t ht
      have hmem : t ∈ d.tokens ++ rest := List.mem_append_left rest ht
      rw [← hseen] at hmem
      exact (List.mem_filter.1 hmem).1
    have hthese := checkMarks_of_subset hmarks (List.Subset.trans hwithin.subset hsub)
    exact ⟨fun _ => hwhole.parse_eq (hpassing.admits.node hn) hcomments hthese finish,
      fun hnot => absurd (hwhole.isBare hbehind) hnot⟩
  · exact ⟨fun hbare => absurd hbare (hbroken.not_isBare hbehind),
      fun _ rules' m => hbroken.parse_ne hcomments hnoEnd finish rules' m⟩

open Token (scan_next scan_nil) in
/-- A name in the chain has a text of its own; the text of the chain lacks a
parenthesis. -/
theorem excerpts_parse_keyedChain :
    let source := "(nil).box(card, gap: 1) do :small end"
    let tokens := keyedChain.tokens ++ [⟨.endOfInput, ⟨37, 37⟩⟩]
    let card : Expr := .call ⟨none, "card", [], none, ⟨10, 14⟩⟩
    width source.toList ≤ Span.maxOffset ∧ Token.ofSourceKeeping false source = .ok tokens
      ∧ strictly.parse tokens = .ok keyedChain.expr
      ∧ card.Bare tokens ∧ ¬ keyedChain.expr.Bare tokens
      ∧ (∃ us m, slice? 10 14 source.toList = some "card".toList
        ∧ Token.ofSourceKeeping false "card" = .ok us ∧ strictly.parse us = .ok m
        ∧ m.shift 10 = card)
      ∧ ∃ us, slice? 1 37 source.toList = some "nil).box(card, gap: 1) do :small end".toList
        ∧ Token.ofSourceKeeping false "nil).box(card, gap: 1) do :small end" = .ok us
        ∧ ∀ m, strictly.parse us ≠ .ok m := by
  intro source tokens card
  have hwidth : width source.toList ≤ Span.maxOffset := by decide
  have htokens : Token.ofSourceKeeping false source = .ok tokens := by
    rw [Token.ofSourceKeeping_eq_scan false hwidth, scan_keyedChain]
    rfl
  have hparse : strictly.parse tokens = .ok keyedChain.expr :=
    parse_of_derivation rfl rfl rfl ⟨by decide, by decide, by decide, by decide⟩
  have hall := excerpts_parse hwidth htokens hparse
  have hbare : card.Bare tokens := nofun
  have henclosed : ¬ keyedChain.expr.Bare tokens := by
    intro h
    have hdot := h (.literal .nil ⟨1, 4⟩) List.mem_cons_self
    cases hdot
  refine ⟨hwidth, htokens, hparse, hbare, henclosed, ?_, ?_⟩
  · have hcard : card ∈ keyedChain.expr.nodes :=
      mem_nodes_call.2 (.inr (.inr (.inl ⟨.positional card, List.mem_cons_self, mem_nodes_self _⟩)))
    obtain ⟨text, us, hslice, hus, hread, -⟩ := hall card hcard nofun
    obtain ⟨m, hm, hmoved⟩ := hread hbare
    have htext : slice? 10 14 "(nil).box(card, gap: 1) do :small end".toList
        = some "card".toList :=
      slice?_width_append "(nil).box(".toList "card".toList ", gap: 1) do :small end".toList
    obtain rfl := Option.some.inj (htext.symm.trans hslice)
    exact ⟨us, m, htext, hus, hm, hmoved⟩
  · obtain ⟨text, us, hslice, hus, -, hrefused⟩ := hall _ (mem_nodes_self _) nofun
    have htext : slice? 1 37 "(nil).box(card, gap: 1) do :small end".toList
        = some "nil).box(card, gap: 1) do :small end".toList :=
      slice?_width_append "(".toList "nil).box(card, gap: 1) do :small end".toList []
    obtain rfl := Option.some.inj (htext.symm.trans hslice)
    exact ⟨us, htext, hus, hrefused henclosed strictly⟩

/-- `(1).b` -/
def enclosedOne : Derivation.Program :=
  ⟨[], .mk
    (.parenthesized ⟨0, 1⟩ (.mk (.literal (.number (.int 1)) ⟨1, 2⟩) .none) ⟨2, 3⟩)
    (.more ⟨3, 4⟩ (.mk "b" ⟨4, 5⟩ .none .none) .none),
    .done []⟩

open Token (scan_next scan_nil) in
/-- A call on a number in parentheses, whose text has the closing one only and
is no program. -/
theorem excerpt_of_enclosed_ne_program :
    let source := "(1).b"
    let tokens := enclosedOne.tokens ++ [⟨.endOfInput, ⟨5, 5⟩⟩]
    let us : List Token := [⟨.number (.int 1), ⟨0, 1⟩⟩, Token.mark ')' ⟨1, 2⟩,
      Token.mark '.' ⟨2, 3⟩, ⟨.identifier "b", ⟨3, 4⟩⟩]
    Token.ofSourceKeeping false source = .ok tokens
      ∧ strictly.parse tokens = .ok enclosedOne.expr ∧ enclosedOne.expr.span = ⟨1, 5⟩
      ∧ slice? 1 5 source.toList = some "1).b".toList
      ∧ Token.ofSourceKeeping false "1).b" = .ok (us ++ [⟨.endOfInput, ⟨4, 4⟩⟩])
      ∧ ∀ m, strictly.parse (us ++ [⟨.endOfInput, ⟨4, 4⟩⟩]) ≠ .ok m := by
  intro source tokens us
  have hslice : slice? 1 5 "(1).b".toList = some "1).b".toList :=
    slice?_width_append "(".toList "1).b".toList []
  refine ⟨?_, ?_, rfl, hslice, ?_, ?_⟩
  · rw [Token.ofSourceKeeping_eq_scan false (by decide)]
    have hscan : Token.scan [] 0 "(1).b".toList = .ok tokens := by
      refine scan_next [] rfl rfl rfl rfl rfl ?_
      refine scan_next [] rfl rfl rfl rfl rfl ?_
      refine scan_next [] rfl rfl rfl rfl rfl ?_
      refine scan_next [] rfl rfl rfl rfl rfl ?_
      refine scan_next [] rfl rfl rfl rfl rfl ?_
      exact scan_nil _
    rw [hscan]
    rfl
  · exact parse_of_derivation rfl rfl rfl ⟨by decide, by decide, by decide, by decide⟩
  · rw [Token.ofSourceKeeping_eq_scan false (by decide)]
    have hscan : Token.scan [] 0 "1).b".toList = .ok (us ++ [⟨.endOfInput, ⟨4, 4⟩⟩]) := by
      refine scan_next [] rfl rfl rfl rfl rfl ?_
      refine scan_next [] rfl rfl rfl rfl rfl ?_
      refine scan_next [] rfl rfl rfl rfl rfl ?_
      refine scan_next [] rfl rfl rfl rfl rfl ?_
      exact scan_nil _
    rw [hscan]
    rfl
  · intro m hm
    have hcomments : ∀ t ∈ us, t.isComment = false := by decide
    obtain ⟨-, d, hd, -, -⟩ := derivation_of_parse_append hcomments (by decide) hm
    have hbalanced := d.sound_tokens.balanced
    rw [hd] at hbalanced
    exact absurd hbalanced (by decide)

end ParseRules

end UiScript
