/-
Runs of a cursor. Whoever reads a list advances, skips separators and asks, in
any order and as often as need be. A cursor holds nothing but its place: asked
for the last span it searches the tokens before the place, and asked for the
kind that comes next it searches those after it. Here these answers are held
against what the cursor has done, and against what it would do.

# The trail

What a cursor has done is told by a `Trail`: a cursor that moves as any other
one does, and keeps each token that it moves away from. A step of a trail
passes what it keeps, in the sense of `Passes`, and leaves the list as it is
(`Trail.Tracks`). So what is kept is what is behind the cursor, and the last
span, which is searched for there, is the span of what was kept last.

# Main statements

* `position_lt_advance_iff`: advancing moves, except at the end.
* `peekKind_eq_kind_advance`: peeking tells what advancing comes to; at the
  end as well, if no token stands after it.
* `Trail.Tracks.perform`, `Trail.tracks_run`: one step, and all of them.
* `run_keeps_track`: the place of a cursor and its answers, after any run.
-/
import UiScript.Proofs.Reading.Cursor

namespace UiScript

namespace Token

/-- The end of the input stands at most once in the list, and then at its last
place. -/
def EndOnlyLast (tokens : List Token) : Prop := ∀ t ∈ tokens.dropLast, t.kind.isEnd = false

instance (tokens : List Token) : Decidable (EndOnlyLast tokens) :=
  inferInstanceAs (Decidable (∀ t ∈ tokens.dropLast, t.kind.isEnd = false))

/-- No token stands after the end. -/
theorem EndOnlyLast.eq_nil {before after : List Token} {t : Token}
    (h : EndOnlyLast (before ++ t :: after)) (ht : t.kind.isEnd = true) : after = [] := by
  cases after with
  | nil => rfl
  | cons u us =>
    have hmem : t ∈ (before ++ t :: u :: us).dropLast := by
      rw [List.dropLast_append_cons]
      exact List.mem_append_right _ (List.mem_cons_self ..)
    exact absurd (h t hmem) (by simp [ht])

end Token

namespace Cursor

-- ================================================================== places

/-- At the end nothing moves. -/
theorem advance_of_atEnd {c : Cursor} (h : c.atEnd = true) : c.advance = c := by
  obtain ⟨passed, ahead⟩ := c
  cases ahead with
  | nil => rfl
  | cons t ts =>
    have ht : t.kind.isEnd = true := h
    simp only [advance, ht, if_true]

/-- Advancing moves, except at the end. So a loop that advances may ask for
the position to find out whether it is done. -/
theorem position_lt_advance_iff (c : Cursor) :
    c.position < c.advance.position ↔ c.atEnd = false := by
  constructor
  · intro hmoves
    cases hend : c.atEnd with
    | false => rfl
    | true =>
      rw [advance_of_atEnd hend] at hmoves
      exact absurd hmoves (Nat.lt_irrefl _)
  · intro hend
    have hsum := position_add_size_eq c.tokens_advance
    have hless := advance_size_lt hend
    omega

/-- In the same list, less ahead is more behind. -/
theorem position_le_of_size_le {c d : Cursor} (htokens : d.tokens = c.tokens)
    (hsize : d.size ≤ c.size) : c.position ≤ d.position := by
  have hsum := position_add_size_eq htokens
  omega

/-- Peeking tells what advancing comes to; at the end as well, if no token
stands after it. Where the end stands in the middle of the list, advancing
stays there and peeking looks past it. -/
theorem peekKind_eq_kind_advance {c : Cursor} (h : c.Rests) (hlast : Token.EndOnlyLast c.tokens) :
    c.peekKind = c.advance.kind := by
  cases hend : c.atEnd with
  | false => exact (kind_advance h hend).symm
  | true =>
    rw [advance_of_atEnd hend]
    obtain ⟨passed, ahead⟩ := c
    cases ahead with
    | nil => rfl
    | cons t ts =>
      have ht : t.kind.isEnd = true := hend
      have hnil : ts = [] := hlast.eq_nil ht
      subst hnil
      exact (Token.Kind.isEnd_iff.1 ht).symm

/-- At an end that is not the last token, peeking looks further than advancing
goes. -/
example :
    let c := ofTokens [⟨.endOfInput, ⟨0, 0⟩⟩, ⟨.nil, ⟨0, 3⟩⟩]
    c.peekKind = .nil ∧ c.advance.kind = .endOfInput := ⟨rfl, rfl⟩

-- ==================================================================== runs

/-- What is done with a cursor. -/
inductive Operation where
  | advance
  | skipSeparators
  /-- A question: for the place, for what is under the cursor, for the last span, or for the kind
  that comes next. -/
  | query

/-- The cursor after an operation; a question leaves it where it is. -/
def perform (c : Cursor) : Operation → Cursor
  | .advance => c.advance
  | .skipSeparators => c.skipSeparators
  | .query => c

/-- The cursor after a sequence of operations. -/
def run (c : Cursor) (ops : List Operation) : Cursor := ops.foldl perform c

/-- No operation moves a cursor back. -/
theorem position_le_perform (c : Cursor) (op : Operation) :
    c.position ≤ (c.perform op).position := by
  cases op with
  | advance => exact position_le_of_size_le c.tokens_advance c.advance_size_le
  | skipSeparators => exact position_le_of_size_le c.tokens_skipSeparators c.skipSeparators_size_le
  | query => exact Nat.le_refl _

/-- No run goes back. -/
theorem position_le_run (c : Cursor) (ops : List Operation) :
    c.position ≤ (c.run ops).position := by
  induction ops generalizing c with
  | nil => exact Nat.le_refl _
  | cons op ops ih => exact Nat.le_trans (c.position_le_perform op) (ih _)

-- ================================================================== trails

/-- A cursor that keeps what it has consumed. -/
structure Trail where
  cursor : Cursor
  /-- The tokens consumed, the last one first. -/
  consumed : List Token

namespace Trail

/-- On a whole list nothing is consumed, though comments may be passed. -/
def start (tokens : List Token) : Trail := ⟨ofTokens tokens, []⟩

/-- Advancing: if the cursor moves, the token that it was on is consumed. -/
def advance (l : Trail) : Trail where
  cursor := l.cursor.advance
  consumed :=
    if l.cursor.position < l.cursor.advance.position then l.cursor.current :: l.consumed
    else l.consumed

/-- Skipping separators, by advancing as long as one is under the cursor. -/
def skipSeparators (l : Trail) : Trail :=
  if h : l.cursor.atMark ';' = true then
    have := advance_size_lt (atEnd_eq_false_of_atMark h)
    l.advance.skipSeparators
  else l
termination_by l.cursor.size

/-- The trail after an operation. -/
def perform (l : Trail) : Operation → Trail
  | .advance => l.advance
  | .skipSeparators => l.skipSeparators
  | .query => l

/-- The trail after a sequence of operations. -/
def run (l : Trail) (ops : List Operation) : Trail := ops.foldl perform l

-- --------------------------------------------------- the cursor of a trail

/-- A trail moves as the cursor in it does, also over separators. -/
theorem cursor_skipSeparators (l : Trail) : l.skipSeparators.cursor = l.cursor.skipSeparators := by
  fun_induction skipSeparators l with
  | case1 l hmark _ ih =>
    have hskip : l.cursor.skipSeparators = l.cursor.advance.skipSeparators := by
      rw [Cursor.skipSeparators, dif_pos hmark]
    exact ih.trans hskip.symm
  | case2 l hmark => rw [Cursor.skipSeparators, dif_neg hmark]

/-- A trail moves as the cursor in it does. -/
theorem cursor_perform (l : Trail) (op : Operation) :
    (l.perform op).cursor = l.cursor.perform op := by
  cases op with
  | advance => rfl
  | skipSeparators => exact l.cursor_skipSeparators
  | query => rfl

/-- A trail moves as its cursor does. -/
theorem cursor_run (l : Trail) (ops : List Operation) : (l.run ops).cursor = l.cursor.run ops := by
  induction ops generalizing l with
  | nil => rfl
  | cons op ops ih =>
    show ((l.perform op).run ops).cursor = (l.cursor.perform op).run ops
    rw [ih, cursor_perform]

-- ------------------------------------------------------------ keeping track

/-- The trail is one in the list `tokens`: from the first token that is no
comment on, the cursor has passed what is consumed. -/
structure Tracks (tokens : List Token) (l : Trail) : Prop where
  tokens_eq : l.cursor.tokens = tokens
  passes : (ofTokens tokens).Passes l.consumed.reverse l.cursor

variable {tokens : List Token} {l : Trail}

/-- A trail that has consumed nothing tracks its list, from the first token
that is no comment. -/
theorem tracks_start (tokens : List Token) : (start tokens).Tracks tokens :=
  ⟨tokens_ofTokens tokens, .refl (ofTokens_spec tokens).1⟩

/-- Advancing keeps track: what the cursor moves away from is what it passes. -/
theorem Tracks.advance (h : l.Tracks tokens) : l.advance.Tracks tokens := by
  refine ⟨(tokens_advance _).trans h.tokens_eq, ?_⟩
  unfold Trail.advance
  split
  · next hmoves =>
    rw [List.reverse_cons]
    exact h.passes.trans (advance_passes h.passes.rests ((position_lt_advance_iff _).1 hmoves))
  · next hstays =>
    have hend : l.cursor.atEnd = true := by
      rw [position_lt_advance_iff] at hstays
      simpa using hstays
    rw [advance_of_atEnd hend]
    exact h.passes

/-- Skipping separators keeps track, one advance after the other. -/
theorem Tracks.skipSeparators (h : l.Tracks tokens) : l.skipSeparators.Tracks tokens := by
  fun_induction Trail.skipSeparators l with
  | case1 l _ _ ih => exact ih h.advance
  | case2 l _ => exact h

/-- One step keeps track. -/
theorem Tracks.perform (h : l.Tracks tokens) (op : Operation) : (l.perform op).Tracks tokens := by
  cases op with
  | advance => exact h.advance
  | skipSeparators => exact h.skipSeparators
  | query => exact h

/-- Whatever is done with a cursor keeps track, by induction on the
operations. -/
theorem Tracks.run (h : l.Tracks tokens) (ops : List Operation) : (l.run ops).Tracks tokens := by
  induction ops generalizing l with
  | nil => exact h
  | cons op ops ih => exact ih (h.perform op)

/-- Every run keeps track. -/
theorem tracks_run (tokens : List Token) (ops : List Operation) :
    ((start tokens).run ops).Tracks tokens :=
  (tracks_start tokens).run ops

/-- What is behind the cursor is what is consumed. -/
theorem Tracks.behind_eq (h : l.Tracks tokens) : l.cursor.behind = l.consumed := by
  rw [h.passes.behind, (ofTokens_spec tokens).2.2, List.reverse_reverse, List.append_nil]

/-- In order, what is consumed is what stands before the place, comments left
out. -/
theorem Tracks.consumed_eq (h : l.Tracks tokens) :
    l.consumed.reverse = (tokens.take l.cursor.position).filter fun t => !t.isComment := by
  rw [← h.tokens_eq, take_tokens, ← h.behind_eq, behind, List.filter_reverse]

/-- The end is not passed: it is no comment, and nothing else is passed but
what is consumed. -/
theorem Tracks.noEnd (h : l.Tracks tokens) :
    ∀ t ∈ tokens.take l.cursor.position, t.kind.isEnd = false := by
  intro t ht
  cases hend : t.kind.isEnd with
  | false => rfl
  | true =>
    have hvisible : t.isComment = false := Token.Kind.isComment_eq_false_of_isEnd hend
    have hconsumed : t ∈ l.consumed.reverse := by
      rw [h.consumed_eq]
      exact List.mem_filter.2 ⟨ht, by rw [hvisible]; rfl⟩
    exact hend.symm.trans (h.passes.noEnd t hconsumed)

/-- The last span is that of the last token consumed. -/
theorem Tracks.previousSpan_eq (h : l.Tracks tokens) :
    l.cursor.previousSpan = (l.consumed.head?.map Token.span).getD Span.nowhere := by
  rw [Cursor.previousSpan_eq, h.behind_eq]
  cases l.consumed <;> rfl

end Trail

/-- Whatever is done with a cursor on a list of tokens, it is at a place in
the list, on no comment, and not beyond the end. It moves on whenever it is
advanced, except at the end, and it never goes back. What it has consumed is
what stands before it in the list, comments left out, and the last span is the
one of the last token consumed, and nowhere as long as nothing is consumed.
The kind that it peeks at is the one under it once it is advanced; for this
alone it matters that no token stands after the end. -/
theorem run_keeps_track (tokens : List Token) (ops : List Operation) :
    let c := (ofTokens tokens).run ops
    let trail := (Trail.start tokens).run ops
    trail.cursor = c
      ∧ c.current = tokens.getD c.position Token.missing
      ∧ c.current.isComment = false
      ∧ c.position ≤ tokens.length
      ∧ (∀ t ∈ tokens.take c.position, t.kind.isEnd = false)
      ∧ (c.position < c.advance.position ↔ c.atEnd = false)
      ∧ (∀ more, c.position ≤ (c.run more).position)
      ∧ trail.consumed.reverse = (tokens.take c.position).filter (fun t => !t.isComment)
      ∧ c.previousSpan = (trail.consumed.head?.map Token.span).getD Span.nowhere
      ∧ (Token.EndOnlyLast tokens → c.peekKind = c.advance.kind) := by
  intro c trail
  have hcursor : trail.cursor = c := (Trail.start tokens).cursor_run ops
  have htracks : trail.Tracks tokens := Trail.tracks_run tokens ops
  have htokens : c.tokens = tokens := by rw [← hcursor, htracks.tokens_eq]
  have hrests : c.Rests := hcursor ▸ htracks.passes.rests
  have hlength := c.length_tokens
  have hcurrent := c.current_eq_getD
  rw [htokens] at hlength hcurrent
  refine ⟨hcursor, hcurrent, hrests, by omega, hcursor ▸ htracks.noEnd, c.position_lt_advance_iff,
    c.position_le_run, hcursor ▸ htracks.consumed_eq, hcursor ▸ htracks.previousSpan_eq, ?_⟩
  intro hlast
  exact peekKind_eq_kind_advance hrests (htokens.symm ▸ hlast)

/-- Comments before and after a separator, and after what follows it, and no
end. -/
theorem run_keeps_track_comments :
    let tokens : List Token := [⟨.comment "", ⟨0, 2⟩⟩, .mark ';' ⟨3, 4⟩, ⟨.comment "", ⟨5, 7⟩⟩,
      ⟨.nil, ⟨8, 11⟩⟩, ⟨.comment "", ⟨11, 13⟩⟩, .mark '(' ⟨14, 15⟩]
    let c := (ofTokens tokens).run [.skipSeparators, .query, .advance]
    let trail := (Trail.start tokens).run [.skipSeparators, .query, .advance]
    Token.EndOnlyLast tokens ∧ c.position = 5 ∧ c.current.isComment = false
      ∧ trail.consumed.reverse = [.mark ';' ⟨3, 4⟩, ⟨.nil, ⟨8, 11⟩⟩] ∧ c.previousSpan = ⟨8, 11⟩
      ∧ c.peekKind = c.advance.kind ∧ c.advance.kind = .endOfInput := by
  intro tokens c trail
  have hlast : Token.EndOnlyLast tokens := by decide
  obtain ⟨-, -, hcomment, -, -, -, -, hconsumed, -, hpeek⟩ :=
    run_keeps_track tokens [.skipSeparators, .query, .advance]
  have hskip : (ofTokens tokens).skipSeparators = (ofTokens tokens).advance := by
    rw [skipSeparators, dif_pos (by decide), skipSeparators, dif_neg (by decide)]
  have hc : c = (ofTokens tokens).advance.advance := congrArg advance hskip
  have hposition : c.position = 5 := by rw [hc]; rfl
  refine ⟨hlast, hposition, hcomment, ?_, by rw [hc]; rfl, hpeek hlast, by rw [hc]; rfl⟩
  exact hconsumed.trans (by rw [hposition]; rfl)

end Cursor

end UiScript
