import Pipeline.Expr.Token
import Pipeline.Text.Blank

/-!
# Expressions — cutting a source into tokens

Each token is the longest one that its first character allows.  Blanks may stand before, between
and behind tokens, but a source of blanks alone lacks the token that it has to hold.
-/

namespace Pipeline.Token

/-- A character that can start a name. -/
def isNameStart (c : Char) : Bool := c.isAlpha || c = '_' || c = '$'

/-- A character that can continue a name. -/
def isNamePart (c : Char) : Bool := c.isAlphanum || c = '_' || c = '$'

/-- The symbol a text starts with, two characters before one. -/
def symbol? : List Char → Option (Symbol × List Char)
  | '*' :: '*' :: cs => some (.power, cs)
  | '=' :: '=' :: cs => some (.equal, cs)
  | '!' :: '=' :: cs => some (.notEqual, cs)
  | '<' :: '=' :: cs => some (.atMost, cs)
  | '>' :: '=' :: cs => some (.atLeast, cs)
  | '&' :: '&' :: cs => some (.both, cs)
  | '|' :: '|' :: cs => some (.either, cs)
  | '+' :: cs => some (.plus, cs)
  | '-' :: cs => some (.minus, cs)
  | '*' :: cs => some (.times, cs)
  | '/' :: cs => some (.divided, cs)
  | '%' :: cs => some (.modulo, cs)
  | '<' :: cs => some (.less, cs)
  | '>' :: cs => some (.greater, cs)
  | '!' :: cs => some (.bang, cs)
  | '(' :: cs => some (.openParen, cs)
  | ')' :: cs => some (.closeParen, cs)
  | '[' :: cs => some (.openBracket, cs)
  | ']' :: cs => some (.closeBracket, cs)
  | '{' :: cs => some (.openBrace, cs)
  | '}' :: cs => some (.closeBrace, cs)
  | ',' :: cs => some (.comma, cs)
  | '.' :: cs => some (.dot, cs)
  | ':' :: cs => some (.colon, cs)
  | _ => none

/-- What a text without a token at its start fails on: half of a double symbol needs its other
half, anything else is out of place itself. -/
def misfit (c : Char) (cs : List Char) : Found :=
  if c = '=' ∨ c = '&' ∨ c = '|' then
    match cs with
    | next :: _ => .char next
    | [] => .endOfInput
  else .char c

/-- The fraction digits behind a point, if there are any. -/
def takeFraction : List Char → List Char × List Char
  | '.' :: d :: cs => if d.isDigit then Decimal.spanDigits (d :: cs) else ([], '.' :: d :: cs)
  | cs => ([], cs)

/-- A number behind its first digit: a leading zero stands alone before the point. -/
def takeNumber (d : Char) (cs : List Char) : Token × List Char :=
  let whole := if d = '0' then ([], cs) else Decimal.spanDigits cs
  let fraction := takeFraction whole.2
  (.number (d :: whole.1) fraction.1, fraction.2)

/-- A string behind its opening quote. -/
def takeText (q : Quote) (cs : List Char) : Except Found (Token × List Char) :=
  match cs.dropWhile (· ≠ q.char) with
  | [] => .error .endOfInput
  | _ :: rest => .ok (.text q (cs.takeWhile (· ≠ q.char)), rest)

/-- The token that starts with `c`, and the text behind it. -/
def takeOne (c : Char) (cs : List Char) : Except Found (Token × List Char) :=
  if c.isDigit then .ok (takeNumber c cs)
  else if c = '\'' then takeText .single cs
  else if c = '"' then takeText .double cs
  else if isNameStart c then .ok (.name (c :: cs.takeWhile isNamePart), cs.dropWhile isNamePart)
  else
    match symbol? (c :: cs) with
    | some (s, rest) => .ok (.symbol s, rest)
    | none => .error (misfit c cs)

theorem length_dropWhile_le (p : Char → Bool) (cs : List Char) :
    (cs.dropWhile p).length ≤ cs.length :=
  (List.dropWhile_suffix p).length_le

theorem length_takeFraction_le (cs : List Char) : (takeFraction cs).2.length ≤ cs.length := by
  unfold takeFraction
  split
  · split
    · have := length_dropWhile_le Char.isDigit
      simp only [Decimal.spanDigits]
      exact Nat.le_trans (this _) (by simp)
    · simp
  · simp

theorem length_takeNumber_le (d : Char) (cs : List Char) :
    (takeNumber d cs).2.length ≤ cs.length := by
  refine Nat.le_trans (length_takeFraction_le _) ?_
  split
  · simp
  · exact length_dropWhile_le Char.isDigit cs

theorem length_takeText_le {q : Quote} {cs rest : List Char} {t : Token}
    (h : takeText q cs = .ok (t, rest)) : rest.length ≤ cs.length := by
  have hle := length_dropWhile_le (· ≠ q.char) cs
  unfold takeText at h
  split at h
  · cases h
  · next heq =>
    cases h
    rw [heq] at hle
    exact Nat.le_of_succ_le hle

theorem length_symbol?_lt {cs rest : List Char} {s : Symbol}
    (h : symbol? cs = some (s, rest)) : rest.length < cs.length := by
  unfold symbol? at h
  split at h
  all_goals
    simp only [Option.some.injEq, Prod.mk.injEq, reduceCtorEq] at h
    try (obtain ⟨-, rfl⟩ := h; simp only [List.length_cons]; omega)

/-- A token takes up the character it starts with. -/
theorem length_takeOne_le {c : Char} {cs rest : List Char} {t : Token}
    (h : takeOne c cs = .ok (t, rest)) : rest.length ≤ cs.length := by
  unfold takeOne at h
  split at h
  · have := length_takeNumber_le c cs
    cases h
    exact this
  split at h
  · exact length_takeText_le h
  split at h
  · exact length_takeText_le h
  split at h
  · cases h
    exact length_dropWhile_le isNamePart cs
  split at h
  · next heq =>
    cases h
    exact Nat.le_of_lt_succ (length_symbol?_lt heq)
  · cases h

/-- The tokens of a text, blanks skipped. -/
def cut : List Char → Except Found (List Token)
  | [] => .ok []
  | c :: cs =>
    if Text.isBlank c then cut cs
    else
      match _h : takeOne c cs with
      | .ok (t, rest) => (cut rest).map (t :: ·)
      | .error found => .error found
termination_by cs => cs.length
decreasing_by
  · simp
  · exact Nat.lt_succ_of_le (length_takeOne_le _h)

/-- The tokens of a source.  The empty source has none; one of blanks alone is at fault. -/
def lex (source : List Char) : Except Found (List Token) :=
  if !source.isEmpty && source.all Text.isBlank then .error .endOfInput else cut source

end Pipeline.Token
