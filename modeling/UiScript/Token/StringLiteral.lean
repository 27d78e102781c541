/-
String literals. A literal runs from its opening quote to the first quote
of the same kind that is not behind a backslash; what stands between is its
body. Between single quotes a backslash only protects a backslash or a
single quote. Between double quotes it also names control characters,
joins lines and introduces a code point, `\u{1F600}`.

# Main statements

* `splitBody_eq` — body, closing quote and rest make up the input.
* `readCodePoint_rest_lt` — reading a code point leaves less to read.
-/

namespace UiScript.Token.StringLiteral

-- ================================================================== body

/-- The body up to the closing quote and what follows it; `body` is read so
far, in reverse. -/
def splitBodyFrom (quote : Char) (body : List Char) : List Char → Option (List Char × List Char)
  | [] => none
  | [c] => if c = quote then some (body.reverse, []) else none
  | c :: d :: cs =>
    if c = '\\' then splitBodyFrom quote (d :: c :: body) cs
    else if c = quote then some (body.reverse, d :: cs)
    else splitBodyFrom quote (c :: body) (d :: cs)

/-- The body of a literal and what follows its closing quote, from just after
the opening one. -/
def splitBody (quote : Char) (cs : List Char) : Option (List Char × List Char) :=
  splitBodyFrom quote [] cs

theorem splitBodyFrom_eq {quote : Char} {body cs b rest : List Char}
    (h : splitBodyFrom quote body cs = some (b, rest)) :
    body.reverse ++ cs = b ++ quote :: rest := by
  fun_induction splitBodyFrom quote body cs with
  | case1 => cases h
  | case2 =>
    cases h
    rfl
  | case3 => cases h
  | case4 body d cs ih => simpa using ih h
  | case5 body d cs => cases h; rfl
  | case6 body c d cs _ _ ih => simpa using ih h

/-- Body, closing quote and rest make up the input. The quote is the first one
that nothing protects. -/
theorem splitBody_eq {quote : Char} {cs b rest : List Char}
    (h : splitBody quote cs = some (b, rest)) :
    cs = b ++ quote :: rest := by
  simpa using splitBodyFrom_eq h

-- ========================================================= single quotes

/-- The text of a body between single quotes; `done` is decoded so far, in
reverse. -/
def decodeSingleFrom (done : List Char) : List Char → List Char
  | [] => done.reverse
  | [c] => (c :: done).reverse
  | c :: d :: cs =>
    if c = '\\' ∧ (d = '\\' ∨ d = '\x27') then decodeSingleFrom (d :: done) cs
    else decodeSingleFrom (c :: done) (d :: cs)

/-- The text of a body between single quotes. -/
def decodeSingle (body : List Char) : List Char := decodeSingleFrom [] body

-- =========================================================== code points

/-- The value of a hexadecimal digit of either case. -/
def hexValue? (c : Char) : Option Nat :=
  if '0' ≤ c ∧ c ≤ '9' then some (c.toNat - '0'.toNat)
  else if 'a' ≤ c ∧ c ≤ 'f' then some (c.toNat - 'a'.toNat + 10)
  else if 'A' ≤ c ∧ c ≤ 'F' then some (c.toNat - 'A'.toNat + 10)
  else none

/-- The character with a code point, unless it is a surrogate or too large. -/
def charOf? (n : Nat) : Option Char := if n.isValidChar then some (Char.ofNat n) else none

/-- The most digits that a code point may have. -/
def maxDigits : Nat := 6

/--
The digits of a code point and its closing brace. `value` has been read from `count` digits and
`bytes` bytes passed. The answer is the character, the bytes passed and what follows; failure gives
the bytes passed once the fault is seen.
-/
def readDigits (value count bytes : Nat) : List Char → Except Nat (Char × Nat × List Char)
  | [] => .error bytes
  | c :: cs =>
    if c = '}' then
      if count = 0 then .error (bytes + 1)
      else match charOf? value with
        | some d => .ok (d, bytes + 1, cs)
        | none => .error (bytes + 1)
    else match hexValue? c with
      | none => .error (bytes + c.utf8Size)
      | some digit =>
        if maxDigits ≤ count then .error (bytes + 1)
        else readDigits (value * 16 + digit) (count + 1) (bytes + 1) cs

/-- A code point in braces, from just after the `u` that announces it. -/
def readCodePoint : List Char → Except Nat (Char × Nat × List Char)
  | [] => .error 0
  | c :: cs => if c = '{' then readDigits 0 0 1 cs else .error 0

theorem readDigits_rest_lt {value count bytes n : Nat} {cs rest : List Char} {d : Char}
    (h : readDigits value count bytes cs = .ok (d, n, rest)) : rest.length < cs.length := by
  fun_induction readDigits value count bytes cs with
  | case1 => cases h
  | case2 => cases h
  | case3 => cases h; simp
  | case4 => cases h
  | case5 => cases h
  | case6 => cases h
  | case7 value count bytes c cs _ digit _ _ ih =>
    have := ih h
    simp only [List.length_cons]
    omega

/-- Reading a code point leaves less to read. -/
theorem readCodePoint_rest_lt {cs rest : List Char} {d : Char} {n : Nat}
    (h : readCodePoint cs = .ok (d, n, rest)) : rest.length < cs.length := by
  cases cs with
  | nil => cases h
  | cons c cs =>
    simp only [readCodePoint] at h
    split at h
    · have := readDigits_rest_lt h
      simp only [List.length_cons]
      omega
    · cases h

-- ========================================================= double quotes

/-- What a backslash and a character stand for; most characters stand for
themselves. -/
def escaped (c : Char) : Char :=
  if c = 'n' then '\n' else if c = 't' then '\t' else if c = 'r' then '\r'
  else if c = '0' then '\x00' else c

/--
The text of a body between double quotes. `done` is decoded so far, in reverse, and `offset` bytes
have been passed; a faulty code point is reported by its bytes within the body, the backslash first.
-/
def decodeDoubleFrom (offset : Nat) (done : List Char) (cs : List Char) :
    Except (Nat × Nat) (List Char) :=
  match cs with
  | [] => .ok done.reverse
  | [c] => .ok (c :: done).reverse
  | c :: d :: cs =>
    if c = '\\' then
      if d = '\n' then decodeDoubleFrom (offset + 2) done cs
      else if d = 'u' then
        match h : readCodePoint cs with
        | .error bytes => .error (offset, offset + 2 + bytes)
        | .ok (e, bytes, rest) =>
          have := readCodePoint_rest_lt h
          decodeDoubleFrom (offset + 2 + bytes) (e :: done) rest
      else decodeDoubleFrom (offset + 1 + d.utf8Size) (escaped d :: done) cs
    else decodeDoubleFrom (offset + c.utf8Size) (c :: done) (d :: cs)
termination_by cs.length

/-- The text of a body between double quotes. -/
def decodeDouble (body : List Char) : Except (Nat × Nat) (List Char) := decodeDoubleFrom 0 [] body

end UiScript.Token.StringLiteral
