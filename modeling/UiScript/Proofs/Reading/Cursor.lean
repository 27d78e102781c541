/-
What a cursor can see. Comments are invisible: a cursor that rests reads the
tokens ahead of it without them (`seen`), and remembers those behind it
without them (`behind`). Every move of a cursor passes a list of visible
tokens from the one to the other, and everything that a cursor answers can
be read off the two lists. Whoever reasons about a program in these terms
reasons about lists with comments and about lists without an end as well.

# Main statements

* `take_tokens`, `current_eq_getD`: the place of a cursor in the whole list.
* `advance_passes`: away from the end, advancing passes the token under the
  cursor.
* `skipSeparators_passes`: skipping separators passes separators, and stops
  before something else.
* `kind_eq_front`, `peekKind_eq`, `previousSpan_eq`: the answers of a cursor
  that rests.
-/
import UiScript.Program.Cursor

namespace UiScript

namespace Token

/-- A punctuation mark that stands somewhere. -/
def mark (c : Char) (span : Span) : Token := ⟨.punctuation c, span⟩

/-- The kind of the first token of a list, and `next` if there is none. -/
def front (next : Kind) : List Token → Kind
  | [] => next
  | t :: _ => t.kind

@[simp] theorem front_nil (next : Kind) : front next [] = next := rfl

@[simp] theorem front_cons (next : Kind) (t : Token) (ts : List Token) :
    front next (t :: ts) = t.kind := rfl

/-- At the front of two lists stands the first token of the first one, or else
that of the second. -/
theorem front_append (next : Kind) (ts us : List Token) :
    front next (ts ++ us) = front (front next us) ts := by
  cases ts <;> rfl

/-- Whether a name stands. -/
def Kind.isName : Kind → Bool
  | .identifier _ => true
  | _ => false

/-- A kind is a mark if it is the punctuation mark itself. -/
theorem Kind.isMark_iff {kind : Kind} {c : Char} :
    kind.isMark c = true ↔ kind = .punctuation c := by
  cases kind <;> simp [isMark]

theorem Kind.isKeyword_iff {kind : Kind} {w : Keyword} :
    kind.isKeyword w = true ↔ kind = .keyword w := by
  cases kind <;> simp [isKeyword]

theorem Kind.isEnd_iff {kind : Kind} : kind.isEnd = true ↔ kind = .endOfInput := by
  cases kind <;> simp [isEnd]

end Token

namespace Cursor

-- ============================================================== the list

/-- The whole list of tokens: those passed, and those ahead. -/
def tokens (c : Cursor) : List Token := c.passed.reverse ++ c.ahead

/-- Every token of the list is either passed or ahead. -/
theorem length_tokens (c : Cursor) : c.tokens.length = c.position + c.size := by
  simp [tokens, position, size]

/-- In one list, what has less ahead has more behind. -/
theorem position_add_size_eq {c d : Cursor} (h : d.tokens = c.tokens) :
    d.position + d.size = c.position + c.size := by
  rw [← length_tokens, ← length_tokens, h]

/-- The tokens passed are those before the position. The cursor keeps them the
last one first. -/
theorem take_tokens (c : Cursor) : c.tokens.take c.position = c.passed.reverse :=
  List.take_left' c.passed.length_reverse

/-- The token under the cursor is the one at its position; past the list it is
the missing one. -/
theorem current_eq_getD (c : Cursor) : c.current = c.tokens.getD c.position Token.missing := by
  obtain ⟨passed, ahead⟩ := c
  have hlength : passed.reverse.length = passed.length := passed.length_reverse
  rw [current, tokens, position, List.getD_eq_getElem?_getD, ← hlength,
    List.getElem?_append_right (Nat.le_refl _), Nat.sub_self]
  cases ahead <;> rfl

/-- Advancing moves tokens from one side of the cursor to the other. -/
theorem tokens_advance (c : Cursor) : c.advance.tokens = c.tokens :=
  c.passed_reverse_append_ahead_advance

/-- A fresh cursor has the list that it was made of, also if it has passed
comments already. -/
theorem tokens_ofTokens (tokens : List Token) : (ofTokens tokens).tokens = tokens :=
  skipComments_append [] tokens

theorem tokens_skipSeparators (c : Cursor) : c.skipSeparators.tokens = c.tokens := by
  fun_induction skipSeparators c with
  | case1 c _ _ ih => exact ih.trans c.tokens_advance
  | case2 => rfl

-- ================================================================== sight

/-- The tokens from the cursor on, comments left out. -/
def seen (c : Cursor) : List Token := c.ahead.filter fun t => !t.isComment

/-- The tokens that are passed, comments left out, the nearest one first. -/
def behind (c : Cursor) : List Token := c.passed.filter fun t => !t.isComment

/-- A cursor rests if it is not on a comment. -/
def Rests (c : Cursor) : Prop := c.current.isComment = false

/-- From `c` on, the tokens `ts` are passed, none of which is the end, and `d`
is reached. -/
structure Passes (c : Cursor) (ts : List Token) (d : Cursor) : Prop where
  rests : d.Rests
  seen : c.seen = ts ++ d.seen
  behind : d.behind = ts.reverse ++ c.behind
  noEnd : ∀ t ∈ ts, t.kind.isEnd = false

theorem Passes.refl {c : Cursor} (h : c.Rests) : c.Passes [] c := ⟨h, rfl, rfl, by simp⟩

/-- What is passed in two moves is passed in one. -/
theorem Passes.trans {c d e : Cursor} {ts us : List Token} (h : c.Passes ts d)
    (k : d.Passes us e) : c.Passes (ts ++ us) e := by
  refine ⟨k.rests, ?_, ?_, ?_⟩
  · rw [h.seen, k.seen, List.append_assoc]
  · rw [k.behind, h.behind, List.reverse_append, List.append_assoc]
  · intro t ht
    exact (List.mem_append.1 ht).elim (h.noEnd t) (k.noEnd t)

/-- Only one cursor's worth of tokens is left after passing some. -/
theorem Passes.seen_eq {c d : Cursor} {ts rest : List Token} (h : c.Passes ts d)
    (hc : c.seen = ts ++ rest) : d.seen = rest := by
  have := h.seen.symm.trans hc
  exact List.append_cancel_left this

-- ================================================================ answers

/-- The token under a cursor that rests is the first that it sees. -/
theorem current_eq {c : Cursor} (h : c.Rests) : c.current = c.seen.headD Token.missing := by
  obtain ⟨passed, ahead⟩ := c
  cases ahead with
  | nil => rfl
  | cons t ts =>
    have ht : t.isComment = false := h
    simp [current, seen, ht]

/-- A cursor that sees nothing is at the end. Whoever has run past the list
sees the end of the input, without a token there. -/
theorem kind_eq_front {c : Cursor} (h : c.Rests) : c.kind = Token.front .endOfInput c.seen := by
  rw [kind, current_eq h]
  cases c.seen <;> rfl

/-- The kind under a cursor is that of the first token it passes, or where it
gets to if it passes none. -/
theorem Passes.kind_eq {c d : Cursor} {ts : List Token} (h : c.Passes ts d) (hc : c.Rests) :
    c.kind = Token.front d.kind ts := by
  rw [kind_eq_front hc, kind_eq_front h.rests, h.seen, Token.front_append]

/-- Peeking answers with the kind of the second token that is seen. Comments
between the two are passed over, as they would be by advancing. -/
theorem peekKind_eq {c : Cursor} (h : c.Rests) :
    c.peekKind = Token.front .endOfInput (c.seen.drop 1) := by
  obtain ⟨passed, ahead⟩ := c
  cases ahead with
  | nil => rfl
  | cons t ts =>
    have ht : t.isComment = false := h
    simp only [peekKind, seen, List.drop_one, List.tail_cons, List.filter_cons, ht, Bool.not_false,
      if_true]
    rw [← List.head?_filter]
    cases ts.filter fun t => !t.isComment <;> rfl

/-- The last span is the one of the nearest token behind. Comments behind the
cursor do not count, so a call does not end with one. -/
theorem previousSpan_eq (c : Cursor) :
    c.previousSpan = (c.behind.headD Token.missing).span := by
  rw [previousSpan, behind, ← List.head?_filter]
  cases c.passed.filter fun t => !t.isComment <;> rfl

-- ================================================================== moves

/-- Passing comments changes nothing of what is seen, or of what is behind. -/
theorem skipComments_passes (passed ahead : List Token) :
    (skipComments passed ahead).Rests
      ∧ (skipComments passed ahead).seen = ahead.filter (fun t => !t.isComment)
      ∧ (skipComments passed ahead).behind = passed.filter fun t => !t.isComment := by
  induction ahead generalizing passed with
  | nil => exact ⟨rfl, rfl, rfl⟩
  | cons t ts ih =>
    rw [skipComments]
    split
    · next ht =>
      obtain ⟨hrests, hseen, hbehind⟩ := ih (t :: passed)
      refine ⟨hrests, ?_, ?_⟩
      · rw [hseen, List.filter_cons, ht]
        rfl
      · rw [hbehind, List.filter_cons, ht]
        rfl
    · next ht => exact ⟨by simpa [Rests, current] using ht, rfl, rfl⟩

/-- A cursor on a whole list rests, sees all of it, and has nothing behind. -/
theorem ofTokens_spec (tokens : List Token) :
    (ofTokens tokens).Rests ∧ (ofTokens tokens).seen = tokens.filter (fun t => !t.isComment)
      ∧ (ofTokens tokens).behind = [] :=
  skipComments_passes [] tokens

/-- Away from the end, advancing passes the token under the cursor. The
comments right behind it are passed as well, and leave no trace in what is
passed. -/
theorem advance_passes {c : Cursor} (h : c.Rests) (hend : c.atEnd = false) :
    c.Passes [c.current] c.advance := by
  obtain ⟨passed, ahead⟩ := c
  cases ahead with
  | nil => cases hend
  | cons t ts =>
    have hcomment : t.isComment = false := h
    have ht : t.kind.isEnd = false := hend
    obtain ⟨hrests, hseen, hbehind⟩ := skipComments_passes (t :: passed) ts
    simp only [advance, ht, Bool.false_eq_true, if_false]
    refine ⟨hrests, ?_, ?_, ?_⟩
    · rw [hseen, seen, List.filter_cons, hcomment]
      rfl
    · rw [hbehind, behind, List.filter_cons, hcomment]
      rfl
    · intro u hu
      rw [List.mem_singleton.1 hu]
      exact ht

/-- Advancing passes a token that is seen, if it is not the end. -/
theorem advance_passes_of_seen {c : Cursor} {t : Token} {ts : List Token} (h : c.Rests)
    (hseen : c.seen = t :: ts) (ht : t.kind.isEnd = false) :
    c.Passes [t] c.advance ∧ c.advance.seen = ts := by
  have hcurrent : c.current = t := by rw [current_eq h, hseen]; rfl
  have hpasses : c.Passes [t] c.advance := by
    rw [← hcurrent]
    exact advance_passes h (by rw [atEnd, kind, hcurrent, ht])
  exact ⟨hpasses, hpasses.seen_eq hseen⟩

/-- Peeking tells what advancing comes to. -/
theorem kind_advance {c : Cursor} (h : c.Rests) (hend : c.atEnd = false) :
    c.advance.kind = c.peekKind := by
  have hpasses := advance_passes h hend
  rw [kind_eq_front hpasses.rests, peekKind_eq h, hpasses.seen]
  rfl

/-- Skipping separators passes separators, and stops before something else.
There may be comments between the separators. -/
theorem skipSeparators_passes {c : Cursor} (h : c.Rests) :
    ∃ spans : List Span, c.Passes (spans.map (Token.mark ';')) c.skipSeparators
      ∧ c.skipSeparators.atMark ';' = false := by
  fun_induction skipSeparators c with
  | case1 c hmark _ ih =>
    have hadvance := advance_passes h (atEnd_eq_false_of_atMark hmark)
    obtain ⟨spans, hpasses, hstop⟩ := ih hadvance.rests
    refine ⟨c.span :: spans, ?_, hstop⟩
    have hcurrent : c.current = Token.mark ';' c.span := by
      rw [Token.mark, ← Token.Kind.isMark_iff.1 hmark]
      rfl
    rw [hcurrent] at hadvance
    exact hadvance.trans hpasses
  | case2 c hmark => exact ⟨[], .refl h, by simpa using hmark⟩

/-- All separators that are seen are skipped, if something else follows them. -/
theorem skipSeparators_passes_of_seen {c : Cursor} {spans : List Span} {rest : List Token}
    (h : c.Rests) (hseen : c.seen = spans.map (Token.mark ';') ++ rest)
    (hrest : Token.front .endOfInput rest ≠ .punctuation ';') :
    c.Passes (spans.map (Token.mark ';')) c.skipSeparators ∧ c.skipSeparators.seen = rest := by
  induction spans generalizing c with
  | nil =>
    have hkind : c.kind = Token.front .endOfInput rest := by rw [kind_eq_front h, hseen]; rfl
    have hmark : ¬ c.atMark ';' = true := fun hc =>
      hrest (hkind.symm.trans (Token.Kind.isMark_iff.1 hc))
    rw [skipSeparators, dif_neg hmark]
    exact ⟨.refl h, hseen⟩
  | cons span spans ih =>
    obtain ⟨hadvance, hnext⟩ := advance_passes_of_seen h hseen rfl
    have hmark : c.atMark ';' = true := by
      rw [atMark, kind_eq_front h, hseen]
      rfl
    obtain ⟨hpasses, hleft⟩ := ih hadvance.rests hnext
    rw [skipSeparators, dif_pos hmark]
    exact ⟨hadvance.trans hpasses, hleft⟩

/-- Wherever it was, a cursor that is advanced rests: it stays only where the
end is. -/
theorem rests_advance (c : Cursor) : c.advance.Rests := by
  obtain ⟨passed, ahead⟩ := c
  cases ahead with
  | nil => rfl
  | cons t ts =>
    simp only [advance]
    split
    · next hend => exact Token.Kind.isComment_eq_false_of_isEnd hend
    · exact (skipComments_passes _ _).1

/-- Separators are passed up to something that is no comment. -/
theorem rests_skipSeparators {c : Cursor} (h : c.Rests) : c.skipSeparators.Rests := by
  obtain ⟨_, hpasses, _⟩ := skipSeparators_passes h
  exact hpasses.rests

end Cursor

end UiScript
