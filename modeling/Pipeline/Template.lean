import Pipeline.Evaluator
import Pipeline.Text.Utf8

/-!
# Command templates

A template is literal text with holes.  A hole is written as a dollar sign and a pair of braces
around an expression; braces nest inside it.  `read` cuts a text into segments, `written` puts
segments together again, and `render` fills the holes.
-/

namespace Pipeline

/-- A piece of a template.  A hole keeps the text between its braces as it was written. -/
inductive Segment where
  | literal (text : List Char)
  | hole (raw : List Char)
  deriving DecidableEq, Repr

namespace Segment

/-- The expression of a hole. -/
def source (raw : List Char) : String := String.ofList (Text.trimBlanks raw)

/-- The text of a segment in a template. -/
def written : Segment → List Char
  | .literal text => text
  | .hole raw => '$' :: '{' :: raw ++ ['}']

end Segment

/-- A template. -/
structure Template where
  segments : List Segment
  deriving DecidableEq, Repr

/-- A hole that is never closed, at a place counted in bytes from the start of the text. -/
structure UnclosedHole where
  offset : Nat
  deriving DecidableEq, Repr

/-- The text of the error. -/
def UnclosedHole.message (e : UnclosedHole) : String :=
  "unterminated '$\x7b' at offset " ++ toString e.offset

namespace Template

/-- The text up to the brace that closes `depth + 1` open ones, and the text behind it. -/
def closing? (depth : Nat) : List Char → Option (List Char × List Char)
  | [] => none
  | '{' :: cs => (closing? (depth + 1) cs).map fun (raw, rest) => ('{' :: raw, rest)
  | '}' :: cs =>
    match depth with
    | 0 => some ([], cs)
    | depth + 1 => (closing? depth cs).map fun (raw, rest) => ('}' :: raw, rest)
  | c :: cs => (closing? depth cs).map fun (raw, rest) => (c :: raw, rest)

theorem length_closing?_lt {depth : Nat} {cs raw rest : List Char}
    (h : closing? depth cs = some (raw, rest)) : rest.length < cs.length := by
  fun_induction closing? depth cs generalizing raw with
  | case1 => simp at h
  | case2 depth cs ih =>
    obtain ⟨⟨raw', rest'⟩, hr, heq⟩ := Option.map_eq_some_iff.1 h
    cases heq
    exact Nat.lt_succ_of_lt (ih hr)
  | case3 cs => cases h; simp
  | case4 cs depth ih =>
    obtain ⟨⟨raw', rest'⟩, hr, heq⟩ := Option.map_eq_some_iff.1 h
    cases heq
    exact Nat.lt_succ_of_lt (ih hr)
  | case5 depth c cs _ _ ih =>
    obtain ⟨⟨raw', rest'⟩, hr, heq⟩ := Option.map_eq_some_iff.1 h
    cases heq
    exact Nat.lt_succ_of_lt (ih hr)

/-- The literal read so far, if there is any. -/
def flush (literal : List Char) : List Segment :=
  if literal.isEmpty then [] else [.literal literal]

/-- Reads on from `offset`, with `literal` read since the last hole. -/
def readFrom (offset : Nat) (literal : List Char) :
    List Char → Except UnclosedHole (List Segment)
  | [] => .ok (flush literal)
  | '$' :: '{' :: cs =>
    match _h : closing? 0 cs with
    | some (raw, rest) =>
      (readFrom (offset + Text.byteLength raw + 3) [] rest).map
        (flush literal ++ .hole raw :: ·)
    | none => .error ⟨offset⟩
  | c :: cs => readFrom (offset + c.utf8Size) (literal ++ [c]) cs
termination_by cs => cs.length
decreasing_by
  · have := length_closing?_lt _h
    simp only [List.length_cons]
    omega
  · simp

/-- The template that a text stands for. -/
def read (text : String) : Except UnclosedHole Template :=
  (readFrom 0 [] text.toList).map .mk

/-- A text as a template without holes. -/
def verbatim (text : String) : Template := ⟨[.literal text.toList]⟩

/-- The text of a template. -/
def written (t : Template) : List Char := t.segments.flatMap Segment.written

/-- The expressions of the holes, in order. -/
def holes (t : Template) : List String :=
  t.segments.filterMap fun
    | .hole raw => some (Segment.source raw)
    | .literal _ => none

/-- The segments with holes numbered from `n` on, each as its number between angle brackets. -/
def outlineFrom (n : Nat) : List Segment → List Char
  | [] => []
  | .literal text :: rest => text ++ outlineFrom n rest
  | .hole _ :: rest => '<' :: (toString n).toList ++ '>' :: outlineFrom (n + 1) rest

/-- The text of a template with numbers in place of its holes. -/
def outline (t : Template) : String := String.ofList (outlineFrom 1 t.segments)

/-- The text of one filled segment, or why there is none. -/
def renderSegment (evaluator : Evaluator) (b : Bindings) (env : Environment) :
    Segment → Except String (List Char)
  | .literal text => .ok text
  | .hole raw =>
    match evaluator.evaluate (Segment.source raw) b env with
    | .ok (.value v) => .ok v.display.toList
    | .ok (.failure e) => .error e.message
    | .error cause => .error cause

/-- The text with every hole filled; the first hole without a value decides a failure. -/
def render (t : Template) (b : Bindings) (env : Environment)
    (evaluator : Evaluator := .standard) : Except String String := do
  let parts ← t.segments.mapM (renderSegment evaluator b env)
  return String.ofList parts.flatten

end Template

end Pipeline
